import Yalnix.Traces
import Yalnix.History
import Yalnix.SerialOutput

/-!
# Terminal output

The log records the writes accepted for a terminal, the chunks passed to the
hardware, the completion traps and the returns of TtyWrite. When the hardware
raises one completion trap for each transmission, the chunks of a terminal are
those of the accepted writes one after the other, at most one transmission is
outstanding, and a write returns when its last chunk has completed. The writer
of a terminal is the active write of a serial device, and the queued writers
are the waiting ones.
-/

namespace Yalnix.TerminalOutput

open Framework FrameTable KernelState Scheduling Ipc Terminals ProcessLifetime ProgramLoading
open Syscalls Traps KernelStart Coherence Operations OperationCoherence CallOperations
open RunInvariants Traces History ByteCopy SerialOutput

variable {M : Machine} {allow : Label → Prop} {s t : Kernel} {i j : ℕ} {p w : PcbPtr}
  {log l : List Event} {len : ℤ}

/-- The write that an event accepts for a terminal. -/
def wrote (i : ℕ) : Event → List (Piece PcbPtr UInt8)
  | .ttyWrote tty p bytes => if tty=i then [⟨p,bytes⟩] else []
  | _ => []

/-- The chunk that an event passes to a terminal. -/
def sent (i : ℕ) : Event → List (Piece PcbPtr UInt8)
  | .ttyTransmitted tty p bytes => if tty=i then [⟨p,bytes⟩] else []
  | _ => []

/-- Whether an event is a completion trap of a terminal. -/
def isCompletion (i : ℕ) : Event → Bool
  | .ttyCompleted tty => decide (tty=i)
  | _ => false

/-- The writes accepted for a terminal, in order. -/
def writes (i : ℕ) (log : List Event) : List (Piece PcbPtr UInt8) := log.flatMap (wrote i)

/-- The chunks passed to a terminal, in order. -/
def chunks (i : ℕ) (log : List Event) : List (Piece PcbPtr UInt8) := log.flatMap (sent i)

/-- The completion traps of a terminal. -/
def completions (i : ℕ) (log : List Event) : ℕ := log.countP (isCompletion i)

/-- The last write of a process to a terminal has the given length, and all
chunks up to its end have completed. -/
def Confirmed (i : ℕ) (log : List Event) (p : PcbPtr) (len : ℤ) : Prop :=
  ∃ before bytes after,writes i log=before++⟨p,bytes⟩::after ∧ (bytes.length : ℤ)=len ∧
    (∀ w∈after,w.owner≠p) ∧
    flat before++bytes<+:flat ((chunks i log).take (completions i log))

/-- A chunk is passed on when no transmission is outstanding, and TtyWrite
returns when its bytes have been confirmed. -/
def Justified (i : ℕ) (past : List Event) : Event → Prop
  | .ttyTransmitted tty _ _ => tty=i → (chunks i past).length=completions i past
  | .ttyWriteReturned tty p len => tty=i → Confirmed i past p len
  | _ => True

/-- The output of a terminal is serialised and complete. -/
structure OutputOk (M : Machine) (i : ℕ) (log : List Event) : Prop where
  /-- The bytes are those of the accepted writes in order, the last one possibly cut. -/
  order : flat (chunks i log)<+:flat (writes i log)
  /-- The chunks come write by write. -/
  served : Served (writes i log) (chunks i log)
  /-- Chunks are neither empty nor longer than a line. -/
  size : ∀ c∈chunks i log,1≤ c.bytes.length ∧ c.bytes.length≤M.terminalMaxLine
  /-- Transmissions do not overlap, and writes return behind their completion. -/
  justified : Grounded (Justified i) log

/-- Events that are not about the output of a terminal. -/
def Quiet (i : ℕ) : Event → Prop
  | .ttyWrote tty _ _ => tty≠i
  | .ttyTransmitted tty _ _ => tty≠i
  | .ttyCompleted tty => tty≠i
  | .ttyWriteReturned tty _ _ => tty≠i
  | _ => True

/-- What a quiet event adds to the histories. -/
theorem quiet_adds {e : Event} (h : Quiet i e) :
    wrote i e=[] ∧ sent i e=[] ∧ isCompletion i e=false ∧ ∀ past,Justified i past e := by
  cases e with
  | ttyWrote tty p bytes => exact ⟨if_neg h,rfl,rfl,fun _ => trivial⟩
  | ttyTransmitted tty p bytes => exact ⟨rfl,if_neg h,rfl,fun _ ht => absurd ht h⟩
  | ttyCompleted tty => exact ⟨rfl,rfl,decide_eq_false h,fun _ => trivial⟩
  | ttyWriteReturned tty p len => exact ⟨rfl,rfl,rfl,fun _ ht => absurd ht h⟩
  | _ => exact ⟨rfl,rfl,rfl,fun _ => trivial⟩

/-- Quiet events leave the histories as they are. -/
theorem quiet_histories (h : ∀ e∈l,Quiet i e) : writes i (log++l)=writes i log ∧
    chunks i (log++l)=chunks i log ∧ completions i (log++l)=completions i log := by
  unfold writes chunks completions
  rw [List.flatMap_append,List.flatMap_append,List.countP_append]
  refine ⟨?_,?_,?_⟩
  · rw [List.flatMap_eq_nil_iff.2 (fun e he => (quiet_adds (h e he)).1),List.append_nil]
  · rw [List.flatMap_eq_nil_iff.2 (fun e he => (quiet_adds (h e he)).2.1),List.append_nil]
  · have hz : l.countP (isCompletion i)=0 :=
      List.countP_eq_zero.2 (fun e he => by rw [(quiet_adds (h e he)).2.2.1]; decide)
    rw [hz,Nat.add_zero]

/-- Quiet events accept no write. -/
theorem quiet_writes (h : ∀ e∈l,Quiet i e) (p : PcbPtr) : ∀ w∈writes i l,w.owner≠p := by
  intro w hm
  have hnil : writes i l=[] := List.flatMap_eq_nil_iff.2 (fun e he => (quiet_adds (h e he)).1)
  rw [hnil] at hm
  cases hm

/-- The confirmed bytes only grow with the log. -/
theorem confirmed_front (i : ℕ) (log l : List Event) :
    flat ((chunks i log).take (completions i log))<+:
      flat ((chunks i (log++l)).take (completions i (log++l))) := by
  have hc : chunks i (log++l)=chunks i log++chunks i l := List.flatMap_append
  have hn : completions i log≤ completions i (log++l) := by
    unfold completions
    rw [List.countP_append]
    exact Nat.le_add_right _ _
  have hp : (chunks i log).take (completions i log)<+:
      (chunks i (log++l)).take (completions i (log++l)) := by
    rw [hc,List.take_append]
    exact (List.take_prefix_take_left hn).trans (List.prefix_append _ _)
  obtain ⟨rest,hr⟩ := hp
  rw [←hr,flat_append]
  exact List.prefix_append _ _

/-- A confirmed write stays confirmed while its process does not write again. -/
theorem Confirmed.append (h : Confirmed i log p len) (hl : ∀ w∈writes i l,w.owner≠p) :
    Confirmed i (log++l) p len := by
  obtain ⟨before,bytes,after,hw,hlen,ha,hb⟩ := h
  refine ⟨before,bytes,after++writes i l,?_,hlen,?_,hb.trans (confirmed_front i log l)⟩
  · have hwr : writes i (log++l)=writes i log++writes i l := List.flatMap_append
    rw [hwr,hw,List.append_assoc,List.cons_append]
  · intro w hm
    rcases List.mem_append.1 hm with hm|hm
    · exact ha w hm
    · exact hl w hm

/-- The write a process has prepared. -/
def writeOf (tty : PcbPtr → TtyRequest) (p : PcbPtr) : Piece PcbPtr UInt8 :=
  ⟨p,contents (tty p).writeBuf (tty p).writeLen⟩

/-- The active write of a terminal. -/
def activeWrite (v : TtyState) (tty : PcbPtr → TtyRequest) : Option (Piece PcbPtr UInt8 × ℕ) :=
  if v.writer=0 then none else some (writeOf tty v.writer,(tty v.writer).writeOffset)

/-- A process is the writer of a terminal or queued behind it. -/
def Writing (i : ℕ) (s : Kernel) (p : PcbPtr) : Prop :=
  (s.terminals i).writer=p ∨ p∈s.queue (.writeQueue i)

/-- The histories of a terminal agree with its writer and its queue. -/
structure OutputLog (M : Machine) (i : ℕ) (s : Kernel) : Prop where
  /-- The writer is active and the queued writers wait. -/
  serial : Serial M.terminalMaxLine (writes i s.log) (chunks i s.log)
    (activeWrite (s.terminals i) s.tty) ((s.queue (.writeQueue i)).map (writeOf s.tty))
  /-- A busy terminal has one outstanding transmission. -/
  count : (chunks i s.log).length=
    completions i s.log+if (s.terminals i).busy=true then 1 else 0
  /-- Nothing of a queued write has been sent. -/
  fresh : ∀ p∈s.queue (.writeQueue i),(s.tty p).writeOffset=0
  /-- A process stopped in TtyWrite is writing or has been confirmed. -/
  stopped : ∀ p len,s.live p=true → (s.kernelContext p).point=.ttyWrite i len →
    (Writing i s p ∧ ((s.tty p).writeLen : ℤ)=len) ∨ Confirmed i s.log p len
  /-- The events so far. -/
  justified : Grounded (Justified i) s.log

/-- The fields of a prepared write. -/
def SameWrite (r r' : TtyRequest) : Prop :=
  r.writeBuf=r'.writeBuf ∧ r.writeLen=r'.writeLen ∧ r.writeOffset=r'.writeOffset

/-- The same write of a process. -/
theorem writeOf_same {tty tty' : PcbPtr → TtyRequest} (h : SameWrite (tty' p) (tty p)) :
    writeOf tty' p=writeOf tty p := by
  unfold writeOf
  rw [h.1,h.2.1]

/-- The active write depends on the writer and its request only. -/
theorem activeWrite_same {v v' : TtyState} {tty tty' : PcbPtr → TtyRequest}
    (hv : v'.writer=v.writer) (h : SameWrite (tty' v.writer) (tty v.writer)) :
    activeWrite v' tty'=activeWrite v tty := by
  unfold activeWrite
  rw [hv,writeOf_same h,h.2.2]

/-- The waiting writes depend on the queue and its requests only. -/
theorem waiting_same {q : List PcbPtr} {tty tty' : PcbPtr → TtyRequest}
    (h : ∀ p∈q,SameWrite (tty' p) (tty p)) : q.map (writeOf tty')=q.map (writeOf tty) :=
  List.map_congr_left fun p hp => writeOf_same (h p hp)

/-- A step that does not touch the output of a terminal. -/
theorem OutputLog.keep (h : OutputLog M i s) (hw : (t.terminals i).writer=(s.terminals i).writer)
    (hb : (t.terminals i).busy=(s.terminals i).busy)
    (hq : t.queue (.writeQueue i)=s.queue (.writeQueue i))
    (hr : ∀ p,Writing i s p → SameWrite (t.tty p) (s.tty p))
    (hk : ∀ p len,t.live p=true → (t.kernelContext p).point=.ttyWrite i len →
      s.live p=true ∧ (s.kernelContext p).point=.ttyWrite i len)
    (hl : t.log=s.log++l) (hn : ∀ e∈l,Quiet i e) : OutputLog M i t := by
  obtain ⟨hwr,hch,hco⟩ := quiet_histories hn
  refine ⟨?_,?_,fun p hp => ?_,fun p len hpl hpk => ?_,?_⟩
  · rw [hl,hwr,hch,hq,activeWrite_same hw (hr _ (.inl rfl)),waiting_same
      (fun p hp => hr p (.inr hp))]
    exact h.serial
  · rw [hl,hch,hco,hb]
    exact h.count
  · rw [hq] at hp
    rw [(hr p (.inr hp)).2.2]
    exact h.fresh p hp
  · obtain ⟨hsl,hsk⟩ := hk p len hpl hpk
    rcases h.stopped p len hsl hsk with ⟨hwp,hlen⟩|hcf
    · refine .inl ⟨?_,by rw [(hr p hwp).2.1]; exact hlen⟩
      unfold Writing
      rw [hw,hq]
      exact hwp
    · refine .inr ?_
      rw [hl]
      exact hcf.append (quiet_writes hn p)
  · rw [hl]
    exact h.justified.other (fun e he => (quiet_adds (hn e he)).2.2.2)

/-- A step that only adds quiet events. -/
theorem OutputLog.other (h : OutputLog M i s) (hw : t.terminals=s.terminals)
    (hq : t.queue=s.queue) (hr : t.tty=s.tty) (hlive : t.live=s.live)
    (hk : t.kernelContext=s.kernelContext) (hl : t.log=s.log++l) (hn : ∀ e∈l,Quiet i e) :
    OutputLog M i t := by
  refine h.keep (by rw [hw]) (by rw [hw]) (by rw [hq]) (fun p _ => ?_) (fun p len hpl hpk => ?_)
    hl hn
  · rw [hr]
    exact ⟨rfl,rfl,rfl⟩
  · rw [hlive] at hpl
    rw [hk] at hpk
    exact ⟨hpl,hpk⟩

/-- A process is marked ready. -/
theorem OutputLog.markReady (h : OutputLog M i s) : OutputLog M i (markReady s p) :=
  h.other (l := [.linked p]) rfl rfl rfl rfl rfl rfl (by simp [Quiet])

/-- The bytes of a chunk are cut out of the write. -/
theorem segment_cut {α : Type*} (buf : ℕ → α) {o n len : ℕ} (h : o+n≤len) :
    segment buf o n=((contents buf len).drop o).take n := by
  obtain ⟨rest,rfl⟩ := Nat.exists_eq_add_of_le h
  rw [contents_add,contents_add]
  have h₁ : (contents buf o).length=o := by simp [contents]
  have h₂ : (segment buf o n).length=n := by simp [ByteCopy.segment]
  rw [List.append_assoc,List.drop_append_of_le_length (by rw [h₁]),List.drop_of_length_le
    (by rw [h₁]),
    List.nil_append,List.take_append_of_le_length (by rw [h₂]),List.take_of_length_le (by rw [h₂])]

/-- The next chunk has at least one byte, fits a line and is left to send. -/
theorem chunkLen_bounds {r : TtyRequest} (h : r.writeOffset< r.writeLen) :
    1≤ chunkLen M r ∧ chunkLen M r≤M.terminalMaxLine ∧ r.writeOffset+chunkLen M r≤ r.writeLen := by
  have hp := M.terminalMaxLine_pos
  unfold chunkLen
  split
  · omega
  · omega

/-- The next chunk of the writer is transmitted. -/
theorem OutputLog.transmit (h : OutputLog M i s) (hw : (s.terminals i).writer≠0)
    (hb : (s.terminals i).busy=false)
    (ho : (s.tty (s.terminals i).writer).writeOffset<(s.tty (s.terminals i).writer).writeLen)
    (hn : (s.terminals i).writer∉s.queue (.writeQueue i)) : OutputLog M i (ttyTransmit M i s) := by
  obtain ⟨h1,hm,hle⟩ := chunkLen_bounds (M := M) ho
  have hact : activeWrite (s.terminals i) s.tty=some (writeOf s.tty (s.terminals i).writer,
      (s.tty (s.terminals i).writer).writeOffset) := if_neg hw
  have hcount := h.count
  rw [hb] at hcount
  have hser := h.serial
  rw [hact] at hser
  have hsend := hser.send h1 hm (by simpa [writeOf,contents] using hle)
  have hcut := segment_cut (s.tty (s.terminals i).writer).writeBuf hle
  have hother : ∀ p∈s.queue (.writeQueue i),(ttyTransmit M i s).tty p=s.tty p := by
    intro p hp
    have hpw : p≠(s.terminals i).writer := by
      rintro rfl
      exact hn hp
    exact Function.update_of_ne hpw ..
  have hself : (ttyTransmit M i s).tty (s.terminals i).writer=
      {s.tty (s.terminals i).writer with
        writeOffset := (s.tty (s.terminals i).writer).writeOffset+
          chunkLen M (s.tty (s.terminals i).writer)} := Function.update_self ..
  have hterm : (ttyTransmit M i s).terminals i={s.terminals i with busy := true} :=
    Function.update_self ..
  have hwr : writes i (ttyTransmit M i s).log=writes i s.log := by
    simp [ttyTransmit,writes,wrote]
  have hch : chunks i (ttyTransmit M i s).log=chunks i s.log++
      [⟨(s.terminals i).writer,segment (s.tty (s.terminals i).writer).writeBuf
        (s.tty (s.terminals i).writer).writeOffset
        (chunkLen M (s.tty (s.terminals i).writer))⟩] := by
    simp [ttyTransmit,chunks,sent]
  have hco : completions i (ttyTransmit M i s).log=completions i s.log := by
    simp [ttyTransmit,completions,isCompletion]
  refine ⟨?_,?_,fun p hp => ?_,fun p len hpl hpk => ?_,?_⟩
  · have hnew : activeWrite ((ttyTransmit M i s).terminals i) (ttyTransmit M i s).tty=
        some (writeOf s.tty (s.terminals i).writer,(s.tty (s.terminals i).writer).writeOffset+
          chunkLen M (s.tty (s.terminals i).writer)) := by
      rw [hterm]
      unfold activeWrite writeOf
      rw [if_neg hw]
      dsimp only
      rw [hself]
    have hwait : ((ttyTransmit M i s).queue (.writeQueue i)).map (writeOf (ttyTransmit M i s).tty)=
        (s.queue (.writeQueue i)).map (writeOf s.tty) :=
      waiting_same (fun p hp => by rw [hother p hp]; exact ⟨rfl,rfl,rfl⟩)
    rw [hwr,hch,hnew,hwait,hcut]
    exact hsend
  · rw [hch,hco,hterm,List.length_append,hcount]
    rfl
  · rw [hother p hp]
    exact h.fresh p hp
  · rcases h.stopped p len hpl hpk with ⟨hwp,hlen⟩|hcf
    · refine .inl ⟨?_,?_⟩
      · unfold Writing
        rw [hterm]
        exact hwp
      · rcases hwp with rfl|hwp
        · rw [hself]
          exact hlen
        · rw [hother p hwp]
          exact hlen
    · exact .inr (hcf.append (by simp [writes,wrote]))
  · exact h.justified.record (fun _ => hcount)

/-- A completion trap in the histories. -/
theorem completed_histories (i : ℕ) (log : List Event) :
    writes i (log++[.ttyCompleted i])=writes i log ∧
    chunks i (log++[.ttyCompleted i])=chunks i log ∧
      completions i (log++[.ttyCompleted i])=completions i log+1 := by
  simp [writes,chunks,completions,wrote,sent,isCompletion]

/-- The outstanding transmission has completed. -/
theorem OutputLog.done (h : OutputLog M i s) (hb : (s.terminals i).busy=true) :
    OutputLog M i (transmitDone i s) := by
  have hterm : (transmitDone i s).terminals i={s.terminals i with busy := false} :=
    Function.update_self ..
  obtain ⟨hwr,hch,hco⟩ := completed_histories i s.log
  have hcount := h.count
  rw [hb] at hcount
  refine ⟨?_,?_,h.fresh,fun p len hpl hpk => ?_,?_⟩
  · change Serial _ (writes i (s.log++[.ttyCompleted i])) (chunks i (s.log++[.ttyCompleted i])) _ _
    rw [hwr,hch,hterm]
    exact h.serial
  · change (chunks i (s.log++[.ttyCompleted i])).length=completions i (s.log++[.ttyCompleted i])+_
    rw [hch,hco,hterm,hcount]
    rfl
  · rcases h.stopped p len hpl hpk with ⟨hwp,hlen⟩|hcf
    · refine .inl ⟨?_,hlen⟩
      unfold Writing
      rw [hterm]
      exact hwp
    · exact .inr (hcf.append (by simp [writes,wrote]))
  · exact h.justified.record trivial

/-- A writer without bytes left gives up a terminal that is not busy. -/
theorem OutputLog.release (h : OutputLog M i s) (hw : (s.terminals i).writer≠0)
    (hb : (s.terminals i).busy=false)
    (hf : (s.tty (s.terminals i).writer).writeLen≤(s.tty (s.terminals i).writer).writeOffset)
    (hn : (s.terminals i).writer∉s.queue (.writeQueue i))
    (ht : t.terminals=Function.update s.terminals i {s.terminals i with writer := 0})
    (hq : t.queue=s.queue) (hr : t.tty=s.tty) (hlive : t.live=s.live)
    (hk : t.kernelContext=s.kernelContext) (hl : t.log=s.log++l) (hqt : ∀ e∈l,Quiet i e) :
    OutputLog M i t := by
  have hact : activeWrite (s.terminals i) s.tty=some (writeOf s.tty (s.terminals i).writer,
      (s.tty (s.terminals i).writer).writeOffset) := if_neg hw
  have hterm : t.terminals i={s.terminals i with writer := 0} := by
    rw [ht]
    exact Function.update_self ..
  have hlen : (writeOf s.tty (s.terminals i).writer).bytes.length=
      (s.tty (s.terminals i).writer).writeLen := by simp [writeOf,contents]
  have hser := h.serial
  rw [hact] at hser
  have ho : (s.tty (s.terminals i).writer).writeOffset=
      (writeOf s.tty (s.terminals i).writer).bytes.length := by
    obtain ⟨_,_,_,hp,_,_⟩ := hser.parts
    cases hp with
    | sending _ _ _ _ _ hle => omega
  rw [ho] at hser
  obtain ⟨hnone,before,hwrites,hflat⟩ := hser.finish
  have hcount := h.count
  rw [hb] at hcount
  obtain ⟨hwr,hch,hco⟩ := quiet_histories hqt
  have hconf : ∀ len : ℤ,((s.tty (s.terminals i).writer).writeLen : ℤ)=len →
      Confirmed i s.log (s.terminals i).writer len := by
    intro len hwl
    refine ⟨before,(writeOf s.tty (s.terminals i).writer).bytes,_,hwrites,by rw [hlen]; exact hwl,
      fun w hm => ?_,?_⟩
    · obtain ⟨q,hqm,rfl⟩ := List.mem_map.1 hm
      rintro heq
      exact hn (by rw [←heq]; exact hqm)
    · have hall : (chunks i s.log).take (completions i s.log)=chunks i s.log :=
        List.take_of_length_le (le_of_eq hcount)
      rw [hall,hflat]
  refine ⟨?_,?_,fun p hp => ?_,fun p len hpl hpk => ?_,?_⟩
  · rw [hl,hwr,hch,hterm,hq,hr]
    exact hnone
  · rw [hl,hch,hco,hterm]
    exact h.count
  · rw [hq] at hp
    rw [hr]
    exact h.fresh p hp
  · rw [hlive] at hpl
    rw [hk] at hpk
    rcases h.stopped p len hpl hpk with ⟨hwp,hwl⟩|hcf
    · rcases hwp with rfl|hwp
      · rw [hl]
        exact .inr ((hconf len hwl).append (quiet_writes hqt _))
      · refine .inl ⟨?_,by rw [hr]; exact hwl⟩
        unfold Writing
        rw [hq]
        exact .inr hwp
    · rw [hl]
      exact .inr (hcf.append (quiet_writes hqt p))
  · rw [hl]
    exact h.justified.other (fun e he => (quiet_adds (hqt e he)).2.2.2)

/-- The first queued writer has its turn. -/
theorem OutputLog.next {rest : List PcbPtr} (h : OutputLog M i s) (hl0 : s.live 0=false)
    (hw : (s.terminals i).writer=0) (h0 : w≠0) (hq : s.queue (.writeQueue i)=w::rest)
    (ht : t.terminals i={s.terminals i with writer := w}) (htq : t.queue (.writeQueue i)=rest)
    (hr : t.tty=s.tty) (hlive : t.live=s.live) (hk : t.kernelContext=s.kernelContext)
    (hl : t.log=s.log++l) (hqt : ∀ e∈l,Quiet i e) : OutputLog M i t := by
  obtain ⟨hwr,hch,hco⟩ := quiet_histories hqt
  have hser := h.serial
  have hfresh := h.fresh w (by rw [hq]; exact List.mem_cons_self)
  have hnone : activeWrite (s.terminals i) s.tty=none := if_pos hw
  have hsome : activeWrite {s.terminals i with writer := w} s.tty=some (writeOf s.tty w,0) := by
    unfold activeWrite
    dsimp only
    rw [if_neg h0,hfresh]
  rw [hq,hnone,List.map_cons] at hser
  refine ⟨?_,?_,fun p hp => ?_,fun p len hpl hpk => ?_,?_⟩
  · rw [hl,hwr,hch,ht,htq,hr,hsome]
    exact hser.next
  · rw [hl,hch,hco,ht]
    exact h.count
  · rw [htq] at hp
    rw [hr]
    exact h.fresh p (by rw [hq]; exact List.mem_cons_of_mem _ hp)
  · rw [hlive] at hpl
    rw [hk] at hpk
    rcases h.stopped p len hpl hpk with ⟨hwp,hwl⟩|hcf
    · refine .inl ⟨?_,by rw [hr]; exact hwl⟩
      unfold Writing
      rw [ht,htq]
      rcases hwp with hwp|hwp
      · rw [hwp.symm.trans hw,hl0] at hpl
        cases hpl
      · rw [hq] at hwp
        rcases List.mem_cons.1 hwp with rfl|hm
        · exact .inl rfl
        · exact .inr hm
    · rw [hl]
      exact .inr (hcf.append (quiet_writes hqt p))
  · rw [hl]
    exact h.justified.other (fun e he => (quiet_adds (hqt e he)).2.2.2)

/-- The current process prepares a write and waits behind the others. -/
theorem OutputLog.submit (env : Env) {k : KernelContext} (buf : ℕ) (u : UserContext)
    (h : OutputLog M i s) (hn : ¬Writing i s s.currentProcess) (hl : 0<len)
    (hk : k.point=.ttyWrite i len) :
    OutputLog M i (queueWriter i (prepareWrite env k i buf len u s)) := by
  have hself : (prepareWrite env k i buf len u s).tty s.currentProcess=
      {s.tty s.currentProcess with
        ttyId := i, writeBuf := fun x => env.mem (buf+x), writeLen := len.toNat,
        writeOffset := 0} := Function.update_self ..
  have hother : ∀ p,p≠s.currentProcess → (prepareWrite env k i buf len u s).tty p=s.tty p :=
    fun p hp => Function.update_of_ne hp ..
  have hne : ∀ p,Writing i s p → p≠s.currentProcess := by
    rintro p hp rfl
    exact hn hp
  have hqueue : (queueWriter i (prepareWrite env k i buf len u s)).queue (.writeQueue i)=
      s.queue (.writeQueue i)++[s.currentProcess] := Function.update_self ..
  have hwr : writes i (prepareWrite env k i buf len u s).log=
      writes i s.log++[⟨s.currentProcess,segment env.mem buf len.toNat⟩] := by
    simp [prepareWrite,writes,wrote]
  have hch : chunks i (prepareWrite env k i buf len u s).log=chunks i s.log := by
    simp [prepareWrite,chunks,sent]
  have hco : completions i (prepareWrite env k i buf len u s).log=completions i s.log := by
    simp [prepareWrite,completions,isCompletion]
  have hnew : writeOf (prepareWrite env k i buf len u s).tty s.currentProcess=
      ⟨s.currentProcess,segment env.mem buf len.toNat⟩ := by
    unfold writeOf
    rw [hself]
    rfl
  refine ⟨?_,?_,fun p hp => ?_,fun p len' hpl hpk => ?_,?_⟩
  · change Serial _ (writes i (prepareWrite env k i buf len u s).log)
      (chunks i (prepareWrite env k i buf len u s).log)
      (activeWrite (s.terminals i) (prepareWrite env k i buf len u s).tty)
      (((queueWriter i (prepareWrite env k i buf len u s)).queue (.writeQueue i)).map
        (writeOf (prepareWrite env k i buf len u s).tty))
    rw [hwr,hch,hqueue,List.map_append,List.map_singleton,hnew,
      activeWrite_same rfl (by rw [hother _ (hne _ (.inl rfl))]; exact ⟨rfl,rfl,rfl⟩),
      waiting_same (fun p hp => by rw [hother _ (hne _ (.inr hp))]; exact ⟨rfl,rfl,rfl⟩)]
    exact h.serial.submit _
  · change (chunks i (prepareWrite env k i buf len u s).log).length=
      completions i (prepareWrite env k i buf len u s).log+_
    rw [hch,hco]
    exact h.count
  · change ((prepareWrite env k i buf len u s).tty p).writeOffset=0
    rw [hqueue] at hp
    rcases List.mem_append.1 hp with hp|hp
    · rw [hother p (hne p (.inr hp))]
      exact h.fresh p hp
    · rw [List.mem_singleton.1 hp,hself]
  · change s.live p=true at hpl
    change (Function.update s.kernelContext s.currentProcess k p).point=_ at hpk
    by_cases hp : p=s.currentProcess
    · rw [hp,Function.update_self,hk] at hpk
      injection hpk with _ hpk
      refine .inl ⟨.inr (by rw [hqueue,hp]; simp),?_⟩
      change (((prepareWrite env k i buf len u s).tty p).writeLen : ℤ)=len'
      rw [hp,hself,←hpk]
      exact Int.toNat_of_nonneg (Int.le_of_lt hl)
    · rw [Function.update_of_ne hp] at hpk
      rcases h.stopped p len' hpl hpk with ⟨hwp,hwl⟩|hcf
      · refine .inl ⟨?_,?_⟩
        · rcases hwp with hwp|hwp
          · exact .inl hwp
          · exact .inr (by rw [hqueue]; exact List.mem_append_left _ hwp)
        · change (((prepareWrite env k i buf len u s).tty p).writeLen : ℤ)=len'
          rw [hother p hp]
          exact hwl
      · refine .inr (hcf.append (fun w hm => ?_))
        simp only [writes,wrote,List.flatMap_cons,List.flatMap_nil,List.nil_append,if_true,
          List.append_nil,List.mem_singleton] at hm
        rw [hm]
        exact fun he => hp he.symm
  · have hj : Grounded (Justified i) (s.log++[.loaded s.currentProcess buf len.toNat,
        .ttyWrote i s.currentProcess (segment env.mem buf len.toNat)]) :=
      h.justified.other (by simp [Justified])
    exact hj

/-- The current process prepares a write for a terminal without a writer. -/
theorem OutputLog.start (env : Env) {k : KernelContext} (buf : ℕ) (u : UserContext)
    (h : OutputLog M i s) (hl0 : s.live 0=false) (hn : ¬Writing i s s.currentProcess)
    (hw : (s.terminals i).writer=0) (hq : s.queue (.writeQueue i)=[]) (h0 : s.currentProcess≠0)
    (hl : 0<len) (hk : k.point=.ttyWrite i len) :
    OutputLog M i (becomeWriter i (prepareWrite env k i buf len u s)) := by
  have hsub := h.submit env buf u hn hl hk
  refine hsub.next (l := []) hl0 hw h0 ?_ (Function.update_self ..) hq rfl rfl rfl
    (List.append_nil _).symm (by simp)
  refine (Function.update_self ..).trans ?_
  change s.queue (.writeQueue i)++[s.currentProcess]=_
  rw [hq]
  rfl

/-- A process that writes to a terminal is blocked. -/
theorem writing_blocked (hc : Coherent M s) (h : Writing i s p) (h0 : p≠0) :
    s.live p=true ∧ s.state p=.blocked := by
  rcases h with rfl|h
  · exact ⟨hc.block.writer_live i h0,writer_blocked hc h0⟩
  · exact ⟨hc.block.queue_live _ p h,hc.block.blocked h⟩

/-- The process that runs is not writing. -/
theorem not_writing (hc : Coherent M s) (hr : Runnable s) : ¬Writing i s s.currentProcess := by
  intro h
  exact hr.not_blocked (writing_blocked hc h (hc.ready.ne_null hc.ready.current_live)).2

/-- A block that is not in use is not writing. -/
theorem dead_not_writing (hc : Coherent M s) (h0 : p≠0) (hl : s.live p=false) :
    ¬Writing i s p := by
  intro h
  rw [(writing_blocked hc h h0).1] at hl
  cases hl

/-- The kernel stack of one process is saved elsewhere. -/
theorem saved_elsewhere {saved : PcbPtr → KernelContext} {k : KernelContext}
    (hk : ∀ len,k.point≠.ttyWrite i len) {q : PcbPtr}
    (h : (Function.update saved p k q).point=.ttyWrite i len) :
    q≠p ∧ (saved q).point=.ttyWrite i len := by
  have hq : q≠p := by
    rintro rfl
    rw [Function.update_self] at h
    exact hk len h
  rw [Function.update_of_ne hq] at h
  exact ⟨hq,h⟩

/-- One terminal is replaced by another with the same writer. -/
theorem terminal_same {terminals : ℕ → TtyState} {v : TtyState}
    (hw : v.writer=(terminals j).writer) (hb : v.busy=(terminals j).busy) (i : ℕ) :
    (Function.update terminals j v i).writer=(terminals i).writer ∧
      (Function.update terminals j v i).busy=(terminals i).busy := by
  by_cases hij : i=j
  · subst hij
    rw [Function.update_self]
    exact ⟨hw,hb⟩
  · rw [Function.update_of_ne hij]
    exact ⟨rfl,rfl⟩

/-- A request keeps its write when one process gets another with the same. -/
theorem request_same {tty : PcbPtr → TtyRequest} {r : TtyRequest} (h : SameWrite r (tty p))
    (q : PcbPtr) : SameWrite (Function.update tty p r q) (tty q) := by
  by_cases hq : q=p
  · subst hq
    rw [Function.update_self]
    exact h
  · rw [Function.update_of_ne hq]
    exact ⟨rfl,rfl,rfl⟩

/-- A process is stopped outside the terminal. -/
theorem OutputLog.park {k : KernelContext} (h : OutputLog M i s)
    (hk : ∀ len,k.point≠.ttyWrite i len) (hw : t.terminals=s.terminals) (hq : t.queue=s.queue)
    (hr : t.tty=s.tty) (hlive : t.live=s.live)
    (hs : t.kernelContext=Function.update s.kernelContext p k) (hl : t.log=s.log++l)
    (hn : ∀ e∈l,Quiet i e) : OutputLog M i t := by
  refine h.keep (by rw [hw]) (by rw [hw]) (by rw [hq]) (fun q _ => ?_) (fun q len hql hqk => ?_)
    hl hn
  · rw [hr]
    exact ⟨rfl,rfl,rfl⟩
  · rw [hlive] at hql
    rw [hs] at hqk
    exact ⟨hql,(saved_elsewhere hk hqk).2⟩

/-- The queue of something else changes. -/
theorem OutputLog.requeue {q : QueueAddr} {ql : List PcbPtr} (h : OutputLog M i s)
    (hne : .writeQueue i≠q) (hw : t.terminals=s.terminals)
    (hq : t.queue=Function.update s.queue q ql) (hr : t.tty=s.tty) (hlive : t.live=s.live)
    (hs : t.kernelContext=s.kernelContext) (hl : t.log=s.log++l) (hn : ∀ e∈l,Quiet i e) :
    OutputLog M i t := by
  refine h.keep (by rw [hw]) (by rw [hw]) (by rw [hq,Function.update_of_ne hne]) (fun p _ => ?_)
    (fun p len hql hqk => ?_) hl hn
  · rw [hr]
    exact ⟨rfl,rfl,rfl⟩
  · rw [hlive] at hql
    rw [hs] at hqk
    exact ⟨hql,hqk⟩

/-- A process is stopped on a queue of something else. -/
theorem OutputLog.parkOn {k : KernelContext} {q : QueueAddr} {ql : List PcbPtr}
    (h : OutputLog M i s) (hk : ∀ len,k.point≠.ttyWrite i len) (hne : .writeQueue i≠q)
    (hw : t.terminals=s.terminals) (hq : t.queue=Function.update s.queue q ql)
    (hr : t.tty=s.tty) (hlive : t.live=s.live)
    (hs : t.kernelContext=Function.update s.kernelContext p k) (hl : t.log=s.log++l)
    (hn : ∀ e∈l,Quiet i e) : OutputLog M i t := by
  have hpark : OutputLog M i {s with kernelContext := Function.update s.kernelContext p k} :=
    h.park (l := []) hk rfl rfl rfl rfl rfl (List.append_nil _).symm (by simp)
  exact hpark.requeue hne hw hq hr hlive hs hl hn

/-- A block that is not in use gets a fresh request. -/
theorem fresh_request (hc : Coherent M s) (h0 : w≠0) (hl : s.live w=false) (r : TtyRequest)
    (hp : Writing i s p) : SameWrite (Function.update s.tty w r p) (s.tty p) := by
  have hne : p≠w := by
    rintro rfl
    exact dead_not_writing hc h0 hl hp
  rw [Function.update_of_ne hne]
  exact ⟨rfl,rfl,rfl⟩

/-- A write that returns has all its chunks completed. -/
theorem OutputLog.returned (h : OutputLog M i s) (hc : Coherent M s) (hr : Runnable s)
    (hk : (s.kernelContext s.currentProcess).point=.ttyWrite j len) :
    OutputLog M i (((s.setKernelContext s.currentProcess
      ⟨s.currentProcess,.executing⟩).setTty s.currentProcess {s.tty s.currentProcess with
        writeBuf := fun _ => 0, writeLen := 0, writeOffset := 0}).emit
          (.ttyWriteReturned j s.currentProcess len)) := by
  have hsame : ∀ p,Writing i s p → SameWrite (Function.update s.tty s.currentProcess
      {s.tty s.currentProcess with writeBuf := fun _ => 0, writeLen := 0, writeOffset := 0} p)
      (s.tty p) := by
    intro p hp
    have hne : p≠s.currentProcess := by
      rintro rfl
      exact not_writing hc hr hp
    rw [Function.update_of_ne hne]
    exact ⟨rfl,rfl,rfl⟩
  by_cases hj : j=i
  · subst hj
    have hconf : Confirmed j s.log s.currentProcess len := by
      rcases h.stopped _ len hc.ready.current_live hk with ⟨hw,_⟩|hcf
      · exact absurd hw (not_writing hc hr)
      · exact hcf
    have hmid : OutputLog M j ((s.setKernelContext s.currentProcess
        ⟨s.currentProcess,.executing⟩).setTty s.currentProcess {s.tty s.currentProcess with
          writeBuf := fun _ => 0, writeLen := 0, writeOffset := 0}) :=
      h.keep (l := []) rfl rfl rfl hsame
        (fun p len' hl hk' => ⟨hl,(saved_elsewhere (by simp) hk').2⟩) (List.append_nil _).symm
        (by simp)
    refine ⟨?_,?_,hmid.fresh,fun p len' hl hk' => ?_,hmid.justified.record (fun _ => hconf)⟩
    · have hser := hmid.serial
      dsimp only [Kernel.emit]
      unfold writes chunks
      rw [List.flatMap_append,List.flatMap_append]
      simp only [List.flatMap_cons,List.flatMap_nil,wrote,sent,List.append_nil]
      exact hser
    · have hcount := hmid.count
      dsimp only [Kernel.emit]
      unfold chunks completions
      rw [List.flatMap_append,List.countP_append]
      simp only [List.flatMap_cons,List.flatMap_nil,sent,List.append_nil,List.countP_cons,
        List.countP_nil,isCompletion]
      exact hcount
    · rcases hmid.stopped p len' hl hk' with hw|hcf
      · exact .inl hw
      · exact .inr (hcf.append (by simp [writes,wrote]))
  · exact h.keep (l := [.ttyWriteReturned j s.currentProcess len]) rfl rfl rfl hsame
      (fun p len' hl hk' => ⟨hl,(saved_elsewhere (by simp) hk').2⟩) rfl (by simpa [Quiet] using hj)

section OtherTerminal

variable (hij : j≠i)
include hij

/-- A chunk of another terminal changes nothing on this one. -/
theorem OutputLog.transmitOther (h : OutputLog M i s)
    (hn : ¬Writing i s (s.terminals j).writer) : OutputLog M i (ttyTransmit M j s) := by
  have hterm : (ttyTransmit M j s).terminals i=s.terminals i := Function.update_of_ne hij.symm ..
  refine h.keep (l := [_]) (by rw [hterm]) (by rw [hterm]) rfl (fun p hp => ?_)
    (fun p len hl hk => ⟨hl,hk⟩) rfl (by simpa [Quiet] using hij)
  have hne : p≠(s.terminals j).writer := by
    rintro rfl
    exact hn hp
  have htty : (ttyTransmit M j s).tty p=s.tty p := Function.update_of_ne hne ..
  rw [htty]
  exact ⟨rfl,rfl,rfl⟩

/-- A completed chunk of another terminal changes nothing on this one. -/
theorem OutputLog.doneOther (h : OutputLog M i s) : OutputLog M i (transmitDone j s) := by
  have hterm : (transmitDone j s).terminals i=s.terminals i := Function.update_of_ne hij.symm ..
  exact h.keep (l := [_]) (by rw [hterm]) (by rw [hterm]) rfl (fun p _ => ⟨rfl,rfl,rfl⟩)
    (fun p len hl hk => ⟨hl,hk⟩) rfl (by simpa [Quiet] using hij)

/-- The writer of another terminal is released. -/
theorem OutputLog.releaseOther (h : OutputLog M i s) (u : UserContext) :
    OutputLog M i (releaseWriter j u s) := by
  have hterm : (releaseWriter j u s).terminals i=s.terminals i := Function.update_of_ne hij.symm ..
  refine h.keep (l := [.ttyCompleted j,.woken (s.terminals j).writer (.written j),
    .linked (s.terminals j).writer]) (by rw [hterm]) (by rw [hterm]) rfl
    (fun p _ => ⟨rfl,rfl,rfl⟩) (fun p len hl hk => ⟨hl,hk⟩) ?_ ?_
  · simp [releaseWriter,Operations.markReady]
  · simpa [Quiet] using hij

/-- Another terminal gets its next writer. -/
theorem OutputLog.nextOther (h : OutputLog M i s) (rest : List PcbPtr) :
    OutputLog M i (nextWriter j w rest s) := by
  have hterm : (nextWriter j w rest s).terminals i=s.terminals i :=
    Function.update_of_ne hij.symm ..
  have hqueue : (nextWriter j w rest s).queue (.writeQueue i)=s.queue (.writeQueue i) :=
    Function.update_of_ne (by simpa using hij.symm) ..
  exact h.keep (l := [_]) (by rw [hterm]) (by rw [hterm]) hqueue (fun p _ => ⟨rfl,rfl,rfl⟩)
    (fun p len hl hk => ⟨hl,hk⟩) rfl (by simp [Quiet])

/-- The current process prepares a write for another terminal. -/
theorem OutputLog.prepareOther (env : Env) {k : KernelContext} (buf : ℕ) (u : UserContext)
    (h : OutputLog M i s) (hn : ¬Writing i s s.currentProcess) (hk : k.point=.ttyWrite j len) :
    OutputLog M i (prepareWrite env k j buf len u s) := by
  refine h.keep (l := [_,_]) rfl rfl rfl (fun p hp => ?_) (fun p len' hl hk' => ?_) rfl
    (by simpa [Quiet] using hij)
  · have hne : p≠s.currentProcess := by
      rintro rfl
      exact hn hp
    have htty : (prepareWrite env k j buf len u s).tty p=s.tty p := Function.update_of_ne hne ..
    rw [htty]
    exact ⟨rfl,rfl,rfl⟩
  · exact ⟨hl,(saved_elsewhere (by simp [hk,hij]) hk').2⟩

end OtherTerminal

/-- Labels of traps that end a transmission which is outstanding. -/
def Outstanding : Label → Prop
  | .completes i log => completions i log<(chunks i log).length
  | _ => True

/-- A trap for an outstanding transmission finds the terminal busy. -/
theorem busy_of_outstanding (h : OutputLog M i s)
    (ho : completions i s.log<(chunks i s.log).length) : (s.terminals i).busy=true := by
  by_contra hb
  have hcount := h.count
  rw [if_neg hb] at hcount
  omega

/-- A writer is not queued. -/
theorem writer_unqueued (hc : Coherent M s) (hw : (s.terminals i).writer≠0) (q : QueueAddr) :
    (s.terminals i).writer∉s.queue q := by
  intro hm
  have := only_writer hc hw (r := .queue q) hm
  cases this

/-- The writer of a terminal is writing nowhere else. -/
theorem writer_not_writing (hc : Coherent M s) (hij : j≠i) (hw : (s.terminals j).writer≠0) :
    ¬Writing i s (s.terminals j).writer := by
  rintro (he|hm)
  · have hr := only_writer hc hw (r := .writer i) he
    injection hr with hr
    exact hij hr.symm
  · exact writer_unqueued hc hw _ hm

/-- A queued writer is writing nowhere else. -/
theorem queued_not_writing (hc : Coherent M s) (hij : j≠i) (hm : w∈s.queue (.writeQueue j)) :
    ¬Writing i s w := by
  have hl := hc.block.queue_live _ w hm
  rintro (he|hm')
  · have := hc.block.reasons.unique w (.writer i) (.queue (.writeQueue j)) hl he hm
    cases this
  · have hr := hc.block.reasons.unique w (.queue (.writeQueue i)) (.queue (.writeQueue j)) hl hm' hm
    injection hr with hr
    injection hr with hr
    exact hij hr.symm

/-- Taking bytes of a line keeps the writer. -/
theorem takeBytes_keeps (line : TtyLine) (count : ℕ) {v v' : TtyState} (hw : v'.writer=v.writer)
    (hb : v'.busy=v.busy) :
    (match lineRest line count with
      | some rest => {v' with line := some rest}
      | none => v').writer=v.writer ∧
    (match lineRest line count with
      | some rest => {v' with line := some rest}
      | none => v').busy=v.busy := by
  cases lineRest line count with
  | none => exact ⟨hw,hb⟩
  | some rest => exact ⟨hw,hb⟩

/-- The last chunk of a writer has completed. -/
theorem OutputLog.releaseWriter (h : OutputLog M i s) (hc : Coherent M s) (u : UserContext)
    (hw : (s.terminals i).writer≠0)
    (hf : (s.tty (s.terminals i).writer).writeLen≤(s.tty (s.terminals i).writer).writeOffset)
    (hb : (s.terminals i).busy=true) : OutputLog M i (releaseWriter i u s) := by
  have hterm : (transmitDone i s).terminals i={s.terminals i with busy := false} :=
    Function.update_self ..
  refine (h.done hb).release (l := [.woken (s.terminals i).writer (.written i),
    .linked (s.terminals i).writer]) ?_ ?_ ?_ ?_ ?_ rfl rfl rfl rfl ?_ (by simp [Quiet])
  · rw [hterm]
    exact hw
  · rw [hterm]
  · rw [hterm]
    exact hf
  · rw [hterm]
    exact writer_unqueued hc hw _
  · simp [Operations.releaseWriter,Operations.markReady,transmitDone]
  · simp [Operations.releaseWriter,Operations.markReady,transmitDone]

/-- The next writer of a terminal starts. -/
theorem OutputLog.transmitNext {rest : List PcbPtr} (h : OutputLog M i s) (hc : Coherent M s)
    (u : UserContext) (hw : (s.terminals i).writer≠0)
    (hf : (s.tty (s.terminals i).writer).writeLen≤(s.tty (s.terminals i).writer).writeOffset)
    (hb : (s.terminals i).busy=true) (hq : s.queue (.writeQueue i)=w::rest) :
    OutputLog M i (ttyTransmit M i (nextWriter i w rest (Operations.releaseWriter i u s))) := by
  have hmem : w∈s.queue (.writeQueue i) := by rw [hq]; exact List.mem_cons_self
  have h0 : w≠0 := hc.ready.ne_null (hc.block.queue_live _ w hmem)
  have hnodup : w∉rest := by
    have := hc.block.queue_nodup (.writeQueue i)
    rw [hq] at this
    exact (List.nodup_cons.1 this).1
  have hterm : (Operations.releaseWriter i u s).terminals i=
      {s.terminals i with busy := false, writer := 0} := Function.update_self ..
  have hnext : (nextWriter i w rest (Operations.releaseWriter i u s)).terminals i=
      {s.terminals i with busy := false, writer := w} := by
    dsimp only [nextWriter]
    rw [Function.update_self,hterm]
  have hrel := h.releaseWriter hc u hw hf hb
  have hn := hrel.next (t := nextWriter i w rest (Operations.releaseWriter i u s)) (l := [_])
    hc.ready.null (by rw [hterm]) h0 hq (Function.update_self ..) (Function.update_self ..) rfl
    rfl rfl rfl (by simp [Quiet])
  refine hn.transmit (by rw [hnext]; exact h0) (by rw [hnext]) ?_ ?_
  · rw [hnext]
    exact hc.writer.pending i w hmem
  · rw [hnext]
    have hqueue : (nextWriter i w rest (Operations.releaseWriter i u s)).queue (.writeQueue i)=
      rest := Function.update_self ..
    rw [hqueue]
    exact hnodup

/-- The current process starts a write. -/
theorem OutputLog.startWrite {env : Env} {k : KernelContext} {buf : ℕ} {u : UserContext}
    (h : OutputLog M i s) (hc : Coherent M s) (hr : Runnable s) (hk : k.point=.ttyWrite i len)
    (hl : 0<len) (hw : (s.terminals i).writer=0) (hb : (s.terminals i).busy=false) :
    OutputLog M i (ttyTransmit M i (becomeWriter i (prepareWrite env k i buf len u s))) := by
  have h0 := hc.ready.ne_null hc.ready.current_live
  have hq : s.queue (.writeQueue i)=[] := by
    by_contra hne
    exact hc.writer.queued i hne hw
  have hst := h.start env buf u hc.ready.null (not_writing hc hr) hw hq h0
    hl hk
  have hterm : (becomeWriter i (prepareWrite env k i buf len u s)).terminals i=
      {s.terminals i with writer := s.currentProcess} := Function.update_self ..
  have htty : (becomeWriter i (prepareWrite env k i buf len u s)).tty s.currentProcess=
      {s.tty s.currentProcess with
        ttyId := i, writeBuf := fun x => env.mem (buf+x), writeLen := len.toNat,
        writeOffset := 0} := Function.update_self ..
  refine hst.transmit (by rw [hterm]; exact h0) (by rw [hterm]; exact hb) ?_ ?_
  · rw [hterm,htty]
    exact Int.lt_toNat.2 hl
  · rw [hterm]
    change s.currentProcess∉s.queue (.writeQueue i)
    rw [hq]
    exact List.not_mem_nil

/-- A child that is destroyed before it has run has written nothing. -/
theorem OutputLog.undone {env : Env} {n : ℤ} {pfns : ℕ → ℕ} {pt : PageTable} {m : Memory}
    {u : UserContext} (h : OutputLog M i s) (hc : Coherent M s) (hcp : callocPcb env s=some w) :
    OutputLog M i (processDestroy M w
      ((enterChild M s.currentProcess w n pfns pt m s).setUserContext w u)) := by
  obtain ⟨h0,hl⟩ := callocPcb_fresh hcp
  rw [destroyed_child hc h0 hl]
  refine h.keep (l := []) rfl rfl rfl (fun p hp => fresh_request hc h0 hl _ hp)
    (fun p len hpl hpk => ?_) (List.append_nil _).symm (by simp)
  dsimp only [releaseProcess,Kernel.setUserContext,enterChild] at hpl hpk
  rw [Function.update_idem] at hpl
  have hpw : p≠w := by
    rintro rfl
    rw [Function.update_self] at hpl
    cases hpl
  rw [Function.update_of_ne hpw] at hpl hpk
  exact ⟨hpl,hpk⟩

/-- A new child has written nothing. -/
theorem OutputLog.spawn {env : Env} {caller : PcbPtr} {n : ℤ} {pfns : ℕ → ℕ} {pt : PageTable}
    {m : Memory} {u : UserContext} (h : OutputLog M i s) (hc : Coherent M s)
    (hcp : callocPcb env s=some w) :
    OutputLog M i (Operations.markReady ((kcCopy M w ⟨caller,.fork w⟩
      ((enterChild M s.currentProcess w n pfns pt m s).setUserContext w u)).emit
        (.forked (s.birth s.currentProcess) s.stamp n)) w) := by
  obtain ⟨h0,hl⟩ := callocPcb_fresh hcp
  rw [spawn_eq]
  refine h.keep (l := [_,_]) rfl rfl rfl (fun p hp => fresh_request hc h0 hl _ hp)
    (fun p len hpl hpk => ?_) (List.append_assoc ..) (by simp [Quiet])
  obtain ⟨hpw,hpk⟩ := saved_elsewhere (by simp) hpk
  dsimp only [enterChild] at hpl
  rw [Function.update_of_ne hpw] at hpl
  exact ⟨hpl,hpk⟩

/-- A reported child has nothing left to write. -/
theorem OutputLog.collect {statusPtr : ℕ} (h : OutputLog M i s) (hc : Coherent M s)
    (ha : Active s) (hch : w∈s.children s.currentProcess) (hz : s.state w=.zombie) :
    OutputLog M i (collectChild M statusPtr w s) := by
  rw [collectChild_eq hc ha statusPtr hch hz]
  refine h.keep rfl rfl rfl (fun p _ => ⟨rfl,rfl,rfl⟩) (fun p len hpl hpk => ?_)
    (List.append_assoc ..) ?_
  · dsimp only [releaseProcess] at hpl
    by_cases hpw : p=w
    · rw [hpw,Function.update_self] at hpl
      cases hpl
    · rw [Function.update_of_ne hpw] at hpl
      exact ⟨hpl,hpk⟩
  · split <;> simp [Quiet]

/-- A write that begins on another terminal changes nothing on this one. -/
theorem OutputLog.startOther {env : Env} {k : KernelContext} {buf : ℕ} {u : UserContext}
    (h : OutputLog M i s) (hc : Coherent M s) (hr : Runnable s) (hij : j≠i)
    (hk : k.point=.ttyWrite j len) :
    OutputLog M i (ttyTransmit M j (becomeWriter j (prepareWrite env k j buf len u s))) := by
  have hp := h.prepareOther hij env buf u (not_writing hc hr) hk
  have hterm : (becomeWriter j (prepareWrite env k j buf len u s)).terminals i=
      s.terminals i := Function.update_of_ne (Ne.symm hij) ..
  have hbw : OutputLog M i (becomeWriter j (prepareWrite env k j buf len u s)) :=
    hp.keep (l := []) (by rw [hterm]; rfl) (by rw [hterm]; rfl) rfl
      (fun p _ => ⟨rfl,rfl,rfl⟩) (fun p len hl hk => ⟨hl,hk⟩) (List.append_nil _).symm (by simp)
  refine hbw.transmitOther hij ?_
  have hwr : ((becomeWriter j (prepareWrite env k j buf len u s)).terminals j).writer=
      s.currentProcess := by
    dsimp only [becomeWriter]
    rw [Function.update_self]
    rfl
  rw [hwr]
  unfold Writing
  rw [hterm]
  exact not_writing hc hr

/-- Bytes taken from a line are input and leave the output as it is. -/
theorem OutputLog.take {line : TtyLine} {v : TtyState} (h : OutputLog M i s)
    (hv : v.writer=(s.terminals j).writer) (hb : v.busy=(s.terminals j).busy) :
    OutputLog M i (ttyTakeBytes j line v s) := by
  have hkeeps := takeBytes_keeps line (lineCount line (s.tty s.currentProcess).readLen) hv hb
  have hsame := terminal_same hkeeps.1 hkeeps.2 i
  exact h.keep (l := [_,_]) hsame.1 hsame.2 rfl
    (fun p _ => request_same (by exact ⟨rfl,rfl,rfl⟩) p) (fun p len hl hk => ⟨hl,hk⟩) rfl
    (by simp [Quiet])

/-- The next chunk of the writer starts behind a completed one. -/
theorem OutputLog.more (h : OutputLog M i s) (hc : Coherent M s) (hw : (s.terminals i).writer≠0)
    (hf : (s.tty (s.terminals i).writer).writeOffset<(s.tty (s.terminals i).writer).writeLen)
    (hb : (s.terminals i).busy=true) : OutputLog M i (ttyTransmit M i (transmitDone i s)) := by
  have hterm : (transmitDone i s).terminals i={s.terminals i with busy := false} :=
    Function.update_self ..
  refine (h.done hb).transmit (by rw [hterm]; exact hw) (by rw [hterm]) ?_ ?_
  · rw [hterm]
    exact hf
  · rw [hterm]
    exact writer_unqueued hc hw _

/-- The next chunk of another terminal changes nothing on this one. -/
theorem OutputLog.moreOther (h : OutputLog M i s) (hc : Coherent M s) (hij : j≠i)
    (hw : (s.terminals j).writer≠0) : OutputLog M i (ttyTransmit M j (transmitDone j s)) := by
  refine (h.doneOther hij).transmitOther hij ?_
  have hterm : (transmitDone j s).terminals j={s.terminals j with busy := false} :=
    Function.update_self ..
  have hterm' : (transmitDone j s).terminals i=s.terminals i :=
    Function.update_of_ne (Ne.symm hij) ..
  unfold Writing
  rw [hterm,hterm']
  exact writer_not_writing hc hij hw

/-- The next writer of another terminal changes nothing on this one. -/
theorem OutputLog.followOther {rest : List PcbPtr} (h : OutputLog M i s) (hc : Coherent M s)
    (hij : j≠i) (u : UserContext) (hq : s.queue (.writeQueue j)=w::rest) :
    OutputLog M i (ttyTransmit M j (nextWriter j w rest (Operations.releaseWriter j u s))) := by
  refine ((h.releaseOther hij u).nextOther hij rest).transmitOther hij ?_
  have hmem : w∈s.queue (.writeQueue j) := by
    rw [hq]
    exact List.mem_cons_self
  have hterm : ((nextWriter j w rest (Operations.releaseWriter j u s)).terminals j).writer=
      w := by
    dsimp only [nextWriter]
    rw [Function.update_self]
  have hterm' : (nextWriter j w rest (Operations.releaseWriter j u s)).terminals i=
      s.terminals i := by
    dsimp only [nextWriter,Operations.releaseWriter,Operations.markReady]
    rw [Function.update_of_ne (Ne.symm hij),Function.update_of_ne (Ne.symm hij)]
  have hqueue : (nextWriter j w rest (Operations.releaseWriter j u s)).queue (.writeQueue i)=
      s.queue (.writeQueue i) := Function.update_of_ne (by simpa using Ne.symm hij) ..
  unfold Writing
  rw [hterm,hterm',hqueue]
  exact queued_not_writing hc hij hmem

/-- An event that concerns neither terminals nor links is noted. -/
theorem OutputLog.noted {e : Event} (h : OutputLog M i s) (hn : Neutral e) :
    OutputLog M i (s.emit e) := by
  refine h.other (l := [e]) rfl rfl rfl rfl rfl rfl (fun e' he => ?_)
  rw [List.mem_singleton.1 he]
  cases e with
  | stored p addr count => trivial
  | loaded p addr count => trivial
  | execLedger opened closed allocated freed => trivial
  | _ => exact hn.elim

/-- A lock that is handed on leaves the output of the terminals alone. -/
theorem OutputLog.handOff {l : LockState} {rest : List PcbPtr} (h : OutputLog M i s)
    (u : UserContext) :
    OutputLog M i (grantLock j l w (Operations.markReady {clearOwner j l s with
      queue := Function.update s.queue (.lockWaiters j) rest
      blockQueue := Function.update s.blockQueue w none
      userContext := Function.update s.userContext w u
      log := s.log++[.lockReleased l.opened l.owner,.woken w (.pop (.lockWaiters j))]} w)) := by
  refine h.requeue (q := .lockWaiters j) (l := [.lockReleased l.opened l.owner,
    .woken w (.pop (.lockWaiters j)),.linked w,.lockGranted l.opened w]) (by simp) rfl rfl rfl rfl
    rfl ?_ (by simp [Quiet])
  simp [grantLock,Operations.markReady]

/-- The first waiter of a pipe or condition variable writes to no terminal. -/
theorem OutputLog.wake {q : QueueAddr} {rest : List PcbPtr} (h : OutputLog M i s)
    (u : UserContext) (hn : (∃ k,q=.readers k) ∨ ∃ k,q=.cvarWaiters k) :
    OutputLog M i (Operations.markReady {s with
      queue := Function.update s.queue q rest
      blockQueue := Function.update s.blockQueue w none
      userContext := Function.update s.userContext w u
      log := s.log++[.woken w (.pop q)]} w) := by
  refine OutputLog.markReady ?_
  refine h.requeue (q := q) (l := [_]) ?_ rfl rfl rfl rfl rfl rfl (by simp [Quiet])
  rcases hn with ⟨_,rfl⟩|⟨_,rfl⟩
  · simp
  · simp

/-- A writer that queues at another terminal changes nothing on this one. -/
theorem OutputLog.queueOther {env : Env} {k : KernelContext} {u : UserContext}
    (h : OutputLog M i s) (hc : Coherent M s) (hb : Runnable s) (hij : j≠i)
    (hk : k.point=.ttyWrite j len) :
    OutputLog M i (queueWriter j (prepareWrite env k j buf len u s)) := by
  have hp := h.prepareOther hij env buf u (not_writing hc hb) hk
  exact hp.requeue (q := .writeQueue j) (l := []) (by simpa using Ne.symm hij) rfl rfl rfl rfl
    rfl (List.append_nil _).symm (by simp)

/-- A line that is handed to a reader leaves the writes of the terminals alone. -/
theorem OutputLog.deliver {line : TtyLine} {r : PcbPtr} {rest : List PcbPtr}
    (h : OutputLog M i s) :
    OutputLog M i (Operations.markReady {s with
      queue := Function.update s.queue (.readQueue j) rest
      blockQueue := Function.update s.blockQueue r none
      tty := Function.update s.tty r {s.tty r with readLine := some line}
      stamp := s.stamp+1
      log := s.log++[.ttyReceived j line.stamp line.len line.data,
        .woken r (.pop (.readQueue j))]} r) := by
  refine OutputLog.markReady ?_
  have hq : Function.update s.queue (.readQueue j) rest (.writeQueue i)=
      s.queue (.writeQueue i) := Function.update_of_ne (by simp) ..
  exact h.keep (l := [_,_]) rfl rfl hq (fun p _ => request_same (by exact ⟨rfl,rfl,rfl⟩) p)
    (fun p len hl hk => ⟨hl,hk⟩) rfl (by simp [Quiet])

/-- A line that is queued leaves the writers of the terminals alone. -/
theorem OutputLog.enqueue {line : TtyLine} (h : OutputLog M i s) :
    OutputLog M i (enqueueLine j line s) := by
  have hsame := terminal_same (j := j) (v := {s.terminals j with
    inputQueue := (s.terminals j).inputQueue++[line]}) rfl rfl i
  exact h.keep (l := [_]) hsame.1 hsame.2 rfl (fun p _ => ⟨rfl,rfl,rfl⟩)
    (fun p len hl hk => ⟨hl,hk⟩) rfl (by simp [Quiet])

/-- Every operation whose completion traps are for outstanding transmissions
keeps the output of a terminal. -/
theorem op_outputLog {b : Bool} (hallow : ∀ x,allow x → Outstanding x) (hc : Coherent M s)
    (h : OutputLog M i s) (hop : Op M allow b s t) : OutputLog M i t := by
  cases hop with
  | note e hn => exact h.noted hn
  | tick => exact h.other (l := [_]) rfl rfl rfl rfl rfl rfl (by simp [Quiet])
  | begin hr hl hn =>
    exact h.park (l := []) (by simp) rfl rfl rfl rfl rfl (List.append_nil _).symm (by simp)
  | preempt ha =>
    exact h.park (l := []) (by simp) rfl rfl rfl rfl rfl (List.append_nil _).symm (by simp)
  | readRequest j buf len =>
    exact h.keep (l := []) rfl rfl rfl (fun p _ => request_same (by exact ⟨rfl,rfl,rfl⟩) p)
      (fun p len hl hk => ⟨hl,hk⟩) (List.append_nil _).symm (by simp)
  | writeDone j len hr hk => exact h.returned hc hr hk
  | sleepOver p hl ho =>
    refine OutputLog.markReady ?_
    exact h.other (l := [_]) rfl rfl rfl rfl rfl rfl (by simp [Quiet])
  | requeue hi hs => exact h.markReady
  | dispatch env hs =>
    have he := dispatchNext_eq hc hs
    rw [he]
    exact h.other (l := [_]) rfl rfl rfl rfl rfl rfl (by simp [Quiet])
  | forkUndone env c pfns pt m₁ m u ha hcp => exact h.undone hc hcp
  | spawn env caller c pfns pt m₁ m u hb hcp => exact h.spawn hc hcp
  | unlock j l => exact h.other (l := [_]) rfl rfl rfl rfl rfl rfl (by simp [Quiet])
  | handOff j l w rest u => exact h.handOff u
  | zombie status k env m v hk =>
    exact h.park (l := [_]) (by simp [hk]) rfl rfl rfl rfl rfl rfl (by simp [Quiet])
  | zombieWake status k env m v hk =>
    refine OutputLog.markReady ?_
    exact h.park (l := [_,_]) (by simp [hk]) rfl rfl rfl rfl rfl rfl (by simp [Quiet])
  | collect statusPtr c ha hch hz => exact h.collect hc ha hch hz
  | blockDelay ticks k u hk =>
    exact h.park (l := []) (by simp [hk]) rfl rfl rfl rfl rfl (List.append_nil _).symm (by simp)
  | blockChild statusPtr k u hk =>
    exact h.park (l := []) (by simp [hk]) rfl rfl rfl rfl rfl (List.append_nil _).symm (by simp)
  | blockPipe id buf len pipe k u hk =>
    exact h.parkOn (l := []) (by simp [hk]) (by simp) rfl rfl rfl rfl rfl (List.append_nil _).symm
      (by simp)
  | blockLock id l k u hk =>
    exact h.parkOn (l := [_]) (by simp [hk]) (by simp) rfl rfl rfl rfl rfl rfl (by simp [Quiet])
  | blockCvar id lockId cvar lockOpened k u hk =>
    exact h.parkOn (l := [_]) (by simp [hk]) (by simp) rfl rfl rfl rfl rfl rfl (by simp [Quiet])
  | blockRead j k u hk =>
    exact h.parkOn (l := []) (by simp [hk]) (by simp) rfl rfl rfl rfl rfl (List.append_nil _).symm
      (by simp)
  | startWrite env j buf len k u hk hb ht hl hw hbusy =>
    by_cases hij : j=i
    · subst hij
      exact h.startWrite hc hb.toRunnable hk hl hw hbusy
    · exact h.startOther hc hb.toRunnable hij hk
  | queueWrite env j buf len k u hk hb ht hl hw =>
    by_cases hij : j=i
    · subst hij
      exact h.submit env buf u (not_writing hc hb.toRunnable) hl hk
    · exact h.queueOther hc hb.toRunnable hij hk
  | wake q w rest u hn hq => exact h.wake u hn
  | openPipe env j hi hf =>
    exact h.requeue (l := []) (by simp) rfl rfl rfl rfl rfl (List.append_nil _).symm (by simp)
  | openLock j hi hf =>
    exact h.requeue (l := []) (by simp) rfl rfl rfl rfl rfl (List.append_nil _).symm (by simp)
  | openCvar j hi hf =>
    exact h.requeue (l := []) (by simp) rfl rfl rfl rfl rfl (List.append_nil _).symm (by simp)
  | takeBytes j pipe len => exact h.other (l := [_]) rfl rfl rfl rfl rfl rfl (by simp [Quiet])
  | putBytes env j pipe grown buf len =>
    exact h.other (l := [_]) rfl rfl rfl rfl rfl rfl (by simp [Quiet])
  | lockTake j l => exact h.other (l := [_]) rfl rfl rfl rfl rfl rfl (by simp [Quiet])
  | lockResume id l =>
    exact h.park (l := [_]) (by simp) rfl rfl rfl rfl rfl rfl (by simp [Quiet])
  | takeHanded j line hk =>
    have hp : OutputLog M i (s.setKernelContext s.currentProcess ⟨s.currentProcess,.executing⟩) :=
      h.park (l := []) (by simp) rfl rfl rfl rfl rfl (List.append_nil _).symm (by simp)
    exact hp.take rfl rfl
  | takeLine j line v ha hn =>
    obtain ⟨hv,hb⟩ := ttyNextLine_writer hn
    exact h.take hv hb
  | deliver j line r rest hl hq => exact h.deliver
  | enqueue j line => exact h.enqueue
  | transmitSpurious j hw ho =>
    by_cases hij : j=i
    · subst hij
      exact h.done (busy_of_outstanding h (hallow _ ho))
    · exact h.doneOther hij
  | transmitMore j hw hf ho =>
    by_cases hij : j=i
    · subst hij
      exact h.more hc hw hf (busy_of_outstanding h (hallow _ ho))
    · exact h.moreOther hc hij hw
  | transmitLast j u hw hf hq ho =>
    by_cases hij : j=i
    · subst hij
      exact h.releaseWriter hc u hw hf (busy_of_outstanding h (hallow _ ho))
    · exact h.releaseOther hij u
  | transmitNext j u w rest hw hf hq ho =>
    by_cases hij : j=i
    · subst hij
      exact h.transmitNext hc u hw hf (busy_of_outstanding h (hallow _ ho)) hq
    · exact h.followOther hc hij u hq
  | _ =>
    exact h.other (l := []) rfl rfl rfl rfl rfl (List.append_nil _).symm (by simp)

/-- Nothing has been written behind the boot. -/
theorem booted_outputLog {b : Boot M} {p q : PcbPtr} {pfn : ℕ} {pfns : ℕ → ℕ} {m₁ m₂ m : Memory}
    {v : UserSpace} {u : UserContext} (hf : BootFacts M b p q pfn pfns m₁ m₂ m v) :
    OutputLog M i (bootedKernel M b p q pfn pfns m₁ m₂ m v u) := by
  refine ⟨Serial.empty _,rfl,fun x hx => (by cases hx),fun x len hx hk => ?_,Grounded.empty _⟩
  rcases booted_live.1 hx with rfl|rfl
  · rw [booted_executing] at hk
    cases hk
  · rw [booted_idle hf.ne] at hk
    cases hk

/-- A completion trap is raised for a transmission that has not completed. -/
def OneTrapPerTransmit (M : Machine) (s : Kernel) : Input → Prop
  | .trap u => u.vector=.ttyTransmit → ttyValid M u.code=true →
      completions u.code.toNat s.log<(chunks u.code.toNat s.log).length
  | .resume => True

/-- In every run in which the hardware raises one completion trap for each
transmission, the output of every terminal is serialised and complete. -/
theorem run_output (h : Run M (fun _ => True)
    (fun s env input => env.switchOk=true ∧ OneTrapPerTransmit M s input) s) (i : ℕ) :
    OutputOk M i s.log := by
  have hok : ∀ s env input,env.switchOk=true ∧ OneTrapPerTransmit M s input →
      env.switchOk=true ∧ StepAllowed M Outstanding s env input := by
    rintro s env input ⟨hsw,hn⟩
    refine ⟨hsw,fun x hx => ?_⟩
    cases hx with
    | completes u hv hc => exact hn hv hc
    | _ => trivial
  obtain ⟨_,ho⟩ := run_invariant hok (P := OutputLog M i)
    (fun b p q pfn pfns m₁ m₂ m v u _ hf => booted_outputLog hf)
    (fun c s t hc hp hop => op_outputLog (fun _ hx => hx) hc hp hop) h
  exact ⟨ho.serial.served.order,ho.serial.served,ho.serial.size,ho.justified⟩

/-- A test that a completion trap is for an outstanding transmission. -/
def transmitTest (s : Kernel) (env : Env) : Input → Bool
  | .trap u => env.switchOk && (u.vector≠.ttyTransmit ||
      decide (completions u.code.toNat s.log<(chunks u.code.toNat s.log).length))
  | .resume => env.switchOk

/-- A step that passes the test has a transmission outstanding. -/
theorem transmitTest_sound (s : Kernel) (env : Env) (input : Input)
    (h : transmitTest s env input=true) : env.switchOk=true ∧ OneTrapPerTransmit M s input := by
  cases input with
  | resume => exact ⟨h,trivial⟩
  | trap u =>
    dsimp only [transmitTest] at h
    simp only [Bool.and_eq_true,Bool.or_eq_true,decide_eq_true_eq] at h
    refine ⟨h.1,fun hv _ => ?_⟩
    rcases h.2 with hn|hn
    · exact absurd hv hn
    · exact hn

/-- A completion trap of terminal zero. -/
def transmitInput : Env × Input := (sampleEnv 0 0,.trap (sampleContext .ttyTransmit 0 0 0 0))

/-- A second writer queues behind the first; both are transmitted, and the
first one returns. -/
theorem run_output_two : ∃ s,Run sampleMachine (fun _ => True)
      (fun s env input => env.switchOk=true ∧ OneTrapPerTransmit sampleMachine s input) s ∧
    completions 0 s.log=2 ∧ (writes 0 s.log).map Piece.owner=[2,3] ∧
    s.log.any (fun e => e matches .ttyWriteReturned 0 2 5)=true ∧
    OutputOk sampleMachine 0 s.log := by
  obtain ⟨s,hr,hq⟩ := replay_exists (fun _ => True) (transmitTest_sound (M := sampleMachine))
    trivial sampleBoot_user [forkInput 3 2,callInput 9 0 0x105010 5,resumeInput,
      callInput 9 0 0x105020 3,
      resumeInput,transmitInput,transmitInput,tickInput,resumeInput]
    (fun s => completions 0 s.log=2 ∧ (writes 0 s.log).map Piece.owner=[2,3] ∧
      s.log.any (fun e => e matches .ttyWriteReturned 0 2 5)=true) (by decide +kernel)
  simp only [decide_eq_true_eq] at hq
  exact ⟨s,hr,hq.1,hq.2.1,hq.2.2,run_output hr 0⟩

end Yalnix.TerminalOutput
