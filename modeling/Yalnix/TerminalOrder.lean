import Yalnix.BlockingReasons
import Yalnix.TerminalInput
import Yalnix.UserPointers

/-!
# The order of terminal input

A terminal with one reader delivers what it receives in order. A line reaches
the reader while it is blocked, from the slot or from the input queue; the line
in its hands comes before the slot, and the slot before the queue. The history
is replayed to compare the bytes received with those returned.
-/

namespace Yalnix.TerminalOrder

open Framework FrameTable KernelState Scheduling Ipc Terminals ProcessLifetime ProgramLoading
open Syscalls Traps KernelStart Coherence Operations OperationCoherence StepOperations
open CallOperations RunInvariants Traces BlockingReasons TerminalInput KernelEntries

variable {M : Machine} {allow : Label → Prop} {s t : Kernel} {log l : List Event}
  {line : TtyLine} {p q : PcbPtr} {i : ℕ}

section Scripts

/-- What a history says about the input of a terminal. -/
structure Script where
  /-- The data of lines, by their stamps. -/
  data : ℕ → ℕ → UInt8
  /-- The bytes that the terminal has received. -/
  received : List UInt8
  /-- The bytes returned by reads. -/
  returned : List UInt8

/-- What an event adds to the script of a terminal. -/
def enterEvent (i : ℕ) (h : Script) : Event → Script
  | .ttyReceived j n len data =>
    {h with
      data := Function.update h.data n data
      received := if j=i then h.received++ByteCopy.segment data 0 len else h.received}
  | .ttyReturned _ j n pos count =>
    {h with
      returned := if j=i then h.returned++ByteCopy.segment (h.data n) pos count else h.returned}
  | _ => h

/-- The script of a history. -/
def script (i : ℕ) (log : List Event) : Script :=
  log.foldl (enterEvent i) ⟨fun _ _ => 0,[],[]⟩

/-- Histories are entered one after the other. -/
theorem script_append : script i (log++l)=l.foldl (enterEvent i) (script i log) :=
  List.foldl_append

/-- Events that are not about terminal input are not entered. -/
theorem script_mute (hl : ∀ e∈l,Mute e) : script i (log++l)=script i log := by
  rw [script_append]
  generalize script i log=h
  induction l with
  | nil => rfl
  | cons e rest ih =>
    have he : enterEvent i h e=h := by
      have hm := hl e List.mem_cons_self
      cases e with
      | ttyReceived j n len data => exact hm.elim
      | ttyReturned p j n pos count => exact hm.elim
      | _ => rfl
    rw [List.foldl_cons,he]
    exact ih (fun e' he' => hl e' (List.mem_cons_of_mem _ he'))

/-- The unread bytes of a line. -/
def unread (line : TtyLine) : List UInt8 := ByteCopy.segment line.data line.pos (line.len-line.pos)

/-- Two neighbouring segments of a buffer make one. -/
theorem segment_add (buf : ℕ → UInt8) (a m n : ℕ) :
    ByteCopy.segment buf a (m+n)=ByteCopy.segment buf a m++ByteCopy.segment buf (a+m) n := by
  unfold ByteCopy.segment
  rw [List.range_add,List.map_append,List.map_map]
  congr 1
  refine List.map_congr_left (fun k _ => ?_)
  exact congrArg buf (Nat.add_assoc ..).symm

/-- A read takes the first unread bytes of a line and leaves the others. -/
theorem unread_split (line : TtyLine) (n : ℕ) :
    unread line=ByteCopy.segment line.data line.pos (lineCount line n)++
      (lineRest line (lineCount line n)).toList.flatMap unread := by
  have hle : lineCount line n≤line.len-line.pos := by
    unfold lineCount
    split
    · omega
    · exact le_rfl
  generalize lineCount line n=c at hle
  unfold lineRest
  split
  · have hsum : line.len-line.pos=c+(line.len-(line.pos+c)) := by omega
    unfold unread
    rw [hsum,segment_add]
    simp
  · have hall : line.len-line.pos=c := by omega
    unfold unread
    rw [hall]
    simp

end Scripts

section Lines

/-- The line that a process stopped in TtyRead on this terminal was handed. -/
def handedLine (i : ℕ) (p : PcbPtr) (s : Kernel) : Option TtyLine :=
  if s.live p=true ∧ readTerminal (s.kernelContext p).point=some i then (s.tty p).readLine else none

/-- The lines that wait for the reader of a terminal, in order: the one it was
handed, the one in the slot and those in the input queue. -/
def pending (i : ℕ) (p : PcbPtr) (s : Kernel) : List TtyLine :=
  (handedLine i p s).toList++(s.terminals i).line.toList++(s.terminals i).inputQueue

/-- The handed line is the one held by the process, if it is of this terminal. -/
theorem handedLine_held (i : ℕ) (p : PcbPtr) (s : Kernel) : handedLine i p s=
    (held s (.handed p)).bind (fun x => if x.1=some i then some x.2 else none) := by
  dsimp only [handedLine,held,lineAt]
  by_cases hl : s.live p=true
  · rw [if_pos hl]
    by_cases hk : readTerminal (s.kernelContext p).point=some i
    · rw [if_pos ⟨hl,hk⟩,hk]
      cases (s.tty p).readLine with
      | none => rfl
      | some line => simp
    · rw [if_neg (fun h => hk h.2)]
      cases (s.tty p).readLine with
      | none => rfl
      | some line => simp [hk]
  · rw [if_neg hl,if_neg (fun h => hl h.1)]
    rfl

/-- Lines that have not moved. -/
theorem lines_kept (h : ∀ x,held t x=held s x) : handedLine i p t=handedLine i p s ∧
    (t.terminals i).line=(s.terminals i).line ∧
    (t.terminals i).inputQueue=(s.terminals i).inputQueue := by
  have hinj : Function.Injective (fun line : TtyLine => (some i,line)) := by
    intro a b hab
    injection hab
  refine ⟨?_,Option.map_injective hinj (h (.slot i)),List.ext_getElem? (fun k => ?_)⟩
  · rw [handedLine_held,handedLine_held,h]
  · exact Option.map_injective hinj (h (.queued i k))

/-- A terminal without input holds neither a line nor a queue of lines. -/
theorem noInput_fields (h : NoInput s i) :
    (s.terminals i).line=none ∧ (s.terminals i).inputQueue=[] := by
  obtain ⟨hl,hq⟩ := h
  refine ⟨Option.map_eq_none_iff.1 hl,?_⟩
  cases hr : (s.terminals i).inputQueue with
  | nil => rfl
  | cons line rest =>
    have h0 := hq 0
    dsimp only [held,lineAt] at h0
    rw [hr] at h0
    cases h0

/-- Everything that was received was returned or waits for the reader. -/
structure OrderOk (i : ℕ) (p : PcbPtr) (s : Kernel) : Prop where
  /-- The received bytes are those returned and those still pending. -/
  text : (script i s.log).received=(script i s.log).returned++(pending i p s).flatMap unread
  /-- The waiting lines have been received. -/
  data : ∀ line∈pending i p s,(script i s.log).data line.stamp=line.data ∧ line.stamp<s.stamp
  /-- A handed line leaves the slot empty. -/
  handed : handedLine i p s≠none → (s.terminals i).line=none
  /-- Readers are blocked only without input. -/
  blocked : s.queue (.readQueue i)≠[] →
    (s.terminals i).line=none ∧ (s.terminals i).inputQueue=[]

/-- Where no line moves the order stays. -/
theorem OrderOk.still (h : OrderOk i p s) (hs : Still s t) : OrderOk i p t := by
  obtain ⟨hh,hl,hq⟩ := lines_kept (i := i) (p := p) hs.lines
  obtain ⟨l,hlog,hm⟩ := hs.log
  have hp : pending i p t=pending i p s := by
    unfold pending
    rw [hh,hl,hq]
  refine ⟨?_,fun line hline => ?_,?_,fun hne => ?_⟩
  · rw [hlog,script_mute hm,hp]
    exact h.text
  · rw [hp] at hline
    rw [hlog,script_mute hm]
    obtain ⟨hd,hlt⟩ := h.data line hline
    exact ⟨hd,Nat.lt_of_lt_of_le hlt hs.stamp⟩
  · rw [hh,hl]
    exact h.handed
  · rw [hl,hq]
    rcases hs.readers i hne with hne|hn
    · exact h.blocked hne
    · exact noInput_fields hn

end Lines

section Readers

/-- All reads of a terminal are those of one process: nobody else is blocked in
one, was woken from one or had bytes returned by one. -/
structure OnlyReader (i : ℕ) (p : PcbPtr) (s : Kernel) : Prop where
  /-- Only the reader waits for the terminal. -/
  blocked : ∀ q∈s.queue (.readQueue i),q=p
  /-- Only the reader was ever woken for the terminal. -/
  woken : ∀ q,Event.woken q (.pop (.readQueue i))∈s.log → q=p
  /-- Only the reader has read from the terminal. -/
  returned : ∀ q n pos count,Event.ttyReturned q i n pos count∈s.log → q=p

/-- Who is the only reader afterwards has been it before. -/
theorem OnlyReader.before (h : OnlyReader i p t) (hc : Coherent M s) (hops : Ops M allow s t) :
    OnlyReader i p s := by
  obtain ⟨l,hl,hk⟩ := ops_goes hc hops
  refine ⟨fun q hq => ?_,fun q hq => h.woken q ?_,fun q n pos count hq =>
    h.returned q n pos count ?_⟩
  · rcases hk q (.queue (.readQueue i)) (hc.block.queue_live _ q hq) hq with ⟨_,_,hb⟩|hw
    · exact h.blocked q hb
    · refine h.woken q ?_
      rw [hl]
      exact List.mem_append_right _ hw
  · rw [hl]
    exact List.mem_append_left _ hq
  · rw [hl]
    exact List.mem_append_left _ hq

/-- A terminal read by one process has no blocked readers while that process
is not blocked. -/
theorem OnlyReader.unblocked (h : OnlyReader i p s) (hc : Coherent M s) (hl : s.live p=true)
    (hb : s.state p≠.blocked) : s.queue (.readQueue i)=[] := by
  refine List.eq_nil_iff_forall_not_mem.2 (fun q hq => hb ?_)
  have hqp := h.blocked q hq
  subst hqp
  exact hc.block.reasons.blocked q (.queue (.readQueue i)) hl hq

end Readers

section Moves

variable {a c j k m : ℕ} {rest : List TtyLine}

/-- What is left of a line belongs to it. -/
theorem lineRest_of {r : TtyLine} (h : r∈(lineRest line k).toList) :
    r.stamp=line.stamp ∧ r.data=line.data := by
  unfold lineRest at h
  split at h
  · rw [Option.toList_some,List.mem_singleton] at h
    rw [h]
    exact ⟨rfl,rfl⟩
  · cases h

/-- A line arrives behind those of its terminal. -/
theorem OrderOk.receive (h : OrderOk i p s) (hl : line.stamp=s.stamp ∧ line.pos=0)
    (hs : t.stamp=s.stamp+1)
    (hlog : t.log=s.log++[.ttyReceived j line.stamp line.len line.data]++l) (hm : ∀ e∈l,Mute e)
    (hp : pending i p t=if j=i then pending i p s++[line] else pending i p s)
    (hh : handedLine i p t≠none → (t.terminals i).line=none)
    (hb : t.queue (.readQueue i)≠[] → (t.terminals i).line=none ∧ (t.terminals i).inputQueue=[]) :
    OrderOk i p t := by
  have hscript : script i t.log=enterEvent i (script i s.log)
      (.ttyReceived j line.stamp line.len line.data) := by
    rw [hlog,script_mute hm,script_append]
    rfl
  have hold : ∀ x∈pending i p s,(script i t.log).data x.stamp=x.data ∧ x.stamp<t.stamp := by
    intro x hx
    obtain ⟨hd,hlt⟩ := h.data x hx
    rw [hscript,hs]
    refine ⟨Eq.trans (Function.update_of_ne ?_ ..) hd,Nat.lt_succ_of_lt hlt⟩
    omega
  refine ⟨?_,fun x hx => ?_,hh,hb⟩
  · rw [hscript,hp]
    dsimp only [enterEvent]
    by_cases hj : j=i
    · have hun : unread line=ByteCopy.segment line.data 0 line.len := by
        unfold unread
        rw [hl.2,Nat.sub_zero]
      rw [if_pos hj,if_pos hj,List.flatMap_append,←List.append_assoc,←h.text,
        List.flatMap_singleton,hun]
    · rw [if_neg hj,if_neg hj]
      exact h.text
  · rw [hp] at hx
    split at hx
    · rcases List.mem_append.1 hx with hx|hx
      · exact hold x hx
      · rw [List.mem_singleton.1 hx,hscript,hs,hl.1]
        exact ⟨Function.update_self ..,Nat.lt_succ_self _⟩
    · exact hold x hx

/-- A read takes the first bytes of the first line. -/
theorem OrderOk.take (h : OrderOk i p s) (hs : t.stamp=s.stamp)
    (hlog : t.log=s.log++[.stored q a c,
      .ttyReturned q i line.stamp line.pos (lineCount line k)])
    (hp : pending i p s=line::rest)
    (hp' : pending i p t=(lineRest line (lineCount line k)).toList++rest)
    (hh : handedLine i p t=none) (hb : t.queue (.readQueue i)=[]) : OrderOk i p t := by
  have hscript : script i t.log=enterEvent i (script i s.log)
      (.ttyReturned q i line.stamp line.pos (lineCount line k)) := by
    rw [hlog,script_append]
    rfl
  obtain ⟨hd,hlt⟩ := h.data line (by rw [hp]; exact List.mem_cons_self)
  refine ⟨?_,fun x hx => ?_,fun hne => absurd hh hne,fun hne => absurd hb hne⟩
  · rw [hscript,hp']
    dsimp only [enterEvent]
    rw [if_pos rfl,hd,List.flatMap_append,List.append_assoc,←List.append_assoc
      (ByteCopy.segment ..),
      ←unread_split,←List.flatMap_cons,←hp]
    exact h.text
  · rw [hscript,hs]
    rw [hp'] at hx
    rcases List.mem_append.1 hx with hx|hx
    · obtain ⟨hst,hda⟩ := lineRest_of hx
      rw [hst,hda]
      exact ⟨hd,hlt⟩
    · exact h.data x (by rw [hp]; exact List.mem_cons_of_mem _ hx)

/-- A read of another terminal. -/
theorem OrderOk.elsewhere (h : OrderOk i p s) (hj : j≠i) (hs : t.stamp=s.stamp)
    (hlog : t.log=s.log++[.stored q a c,.ttyReturned q j line.stamp line.pos m])
    (hh : handedLine i p t=handedLine i p s) (ht : t.terminals i=s.terminals i)
    (hq : t.queue=s.queue) : OrderOk i p t := by
  have hscript : script i t.log=script i s.log := by
    rw [hlog,script_append]
    dsimp only [List.foldl_cons,List.foldl_nil,enterEvent]
    rw [if_neg hj]
  have hp : pending i p t=pending i p s := by
    unfold pending
    rw [hh,ht]
  refine ⟨?_,fun x hx => ?_,?_,?_⟩
  · rw [hscript,hp]
    exact h.text
  · rw [hscript,hs]
    rw [hp] at hx
    exact h.data x hx
  · rw [hh,ht]
    exact h.handed
  · rw [hq,ht]
    exact h.blocked

/-- A process that is not stopped in a read of the terminal has no line of it. -/
theorem handedLine_none (h : readTerminal (s.kernelContext p).point≠some i) :
    handedLine i p s=none := if_neg (fun hc => h hc.2)

/-- A process that is stopped in a read of the terminal has the line of its request. -/
theorem handedLine_read (hl : s.live p=true) (hk : (s.kernelContext p).point=.ttyRead i) :
    handedLine i p s=(s.tty p).readLine := if_pos ⟨hl,by rw [hk]; rfl⟩

/-- The handed line of a process that keeps its request and its kernel stack. -/
theorem handedLine_same (hl : t.live=s.live) (hk : t.kernelContext p=s.kernelContext p)
    (ht : t.tty p=s.tty p) : handedLine i p t=handedLine i p s := by
  unfold handedLine
  rw [hl,hk,ht]

/-- A line is handed to a blocked reader. -/
theorem deliver_order (hc : Coherent M s) (h : OrderOk i p s) (hp : OnlyReader i p s)
    {r : PcbPtr} {rest : List PcbPtr} (hl : line.stamp=s.stamp ∧ line.pos=0)
    (hq : s.queue (.readQueue j)=r::rest) : OrderOk i p (markReady {s with
      queue := Function.update s.queue (.readQueue j) rest
      blockQueue := Function.update s.blockQueue r none
      tty := Function.update s.tty r {s.tty r with readLine := some line}
      stamp := s.stamp+1
      log := s.log++[.ttyReceived j line.stamp line.len line.data,
        .woken r (.pop (.readQueue j))]} r) := by
  have hmem : r∈s.queue (.readQueue j) := by
    rw [hq]
    exact List.mem_cons_self
  have hlive : s.live r=true := hc.block.queue_live _ _ hmem
  have hk : (s.kernelContext r).point=.ttyRead j := hc.reader.reading j r hmem
  have hmute : ∀ e∈[Event.woken r (.pop (.readQueue j)),.linked r],Mute e := by simp [Mute]
  have hlog : ∀ x y z : Event,s.log++[x,y]++[z]=s.log++[x]++[y,z] := by simp
  generalize ht : markReady {s with
      queue := Function.update s.queue (.readQueue j) rest
      blockQueue := Function.update s.blockQueue r none
      tty := Function.update s.tty r {s.tty r with readLine := some line}
      stamp := s.stamp+1
      log := s.log++[.ttyReceived j line.stamp line.len line.data,
        .woken r (.pop (.readQueue j))]} r=t
  have htlive : t.live=s.live := by
    subst ht
    rfl
  have htk : t.kernelContext=s.kernelContext := by
    subst ht
    rfl
  have htt : t.terminals=s.terminals := by
    subst ht
    rfl
  have htty : t.tty=Function.update s.tty r {s.tty r with readLine := some line} := by
    subst ht
    rfl
  have htq : t.queue=Function.update s.queue (.readQueue j) rest := by
    subst ht
    rfl
  have hts : t.stamp=s.stamp+1 := by
    subst ht
    rfl
  have htlog : t.log=s.log++[.ttyReceived j line.stamp line.len line.data]++
      [.woken r (.pop (.readQueue j)),.linked r] := by
    subst ht
    exact hlog ..
  by_cases hj : j=i
  · subst hj
    have hr : r=p := hp.blocked r hmem
    subst hr
    have hstate : s.state r=.blocked := hc.block.reasons.blocked r (.queue _) hlive hmem
    have hnone : (s.tty r).readLine=none := no_line_stopped hc hlive (.inl hstate)
    obtain ⟨hslot,hqueue⟩ := h.blocked (by rw [hq]; exact List.cons_ne_nil _ _)
    have hrest : rest=[] := by
      have hnd := hc.block.queue_nodup (.readQueue j)
      rw [hq,List.nodup_cons] at hnd
      refine List.eq_nil_iff_forall_not_mem.2 (fun q hm => hnd.1 ?_)
      have hqr : q=r := hp.blocked q (by rw [hq]; exact List.mem_cons_of_mem _ hm)
      rwa [hqr] at hm
    have hempty : pending j r s=[] := by
      unfold pending handedLine
      rw [hnone,hslot,hqueue,ite_self]
      rfl
    refine h.receive hl hts htlog hmute ?_ (fun _ => by rw [htt]; exact hslot) (fun hne => ?_)
    · have hhand : handedLine j r t=some line := by
        rw [handedLine_read (by rw [htlive]; exact hlive) (by rw [htk]; exact hk),htty,
          Function.update_self]
      rw [if_pos rfl,hempty]
      unfold pending
      rw [hhand,htt,hslot,hqueue]
      rfl
    · refine absurd ?_ hne
      rw [htq,Function.update_self,hrest]
  · have hh : handedLine i p t=handedLine i p s := by
      by_cases hpr : p=r
      · have hother : readTerminal (s.kernelContext p).point≠some i := by
          rw [hpr,hk]
          exact fun he => hj (Option.some.inj he)
        rw [handedLine_none hother]
        exact handedLine_none (by rw [htk]; exact hother)
      · refine handedLine_same htlive (by rw [htk]) ?_
        rw [htty]
        exact Function.update_of_ne hpr ..
    refine h.receive hl hts htlog hmute ?_ (fun hne => ?_) (fun hne => ?_)
    · rw [if_neg hj]
      unfold pending
      rw [hh,htt]
    · rw [hh] at hne
      rw [htt]
      exact h.handed hne
    · rw [htt]
      refine h.blocked ?_
      rw [htq,Function.update_of_ne (by simpa using Ne.symm hj)] at hne
      exact hne

/-- A line that is queued comes last among the pending ones. -/
theorem enqueue_order (h : OrderOk i p s) (hl : line.stamp=s.stamp ∧ line.pos=0)
    (hq : s.queue (.readQueue j)=[]) : OrderOk i p (enqueueLine j line s) := by
  refine h.receive hl rfl (List.append_nil _).symm (fun _ he => absurd he List.not_mem_nil) ?_
    (fun hne => ?_) (fun hne => ?_)
  · unfold pending
    dsimp only [enqueueLine]
    by_cases hj : j=i
    · rw [hj,if_pos rfl,Function.update_self]
      exact (List.append_assoc ..).symm
    · rw [if_neg hj,Function.update_of_ne (Ne.symm hj)]
      rfl
  · have hslot := h.handed hne
    dsimp only [enqueueLine]
    by_cases hj : i=j
    · subst hj
      rw [Function.update_self]
      exact hslot
    · rw [Function.update_of_ne hj]
      exact hslot
  · by_cases hj : i=j
    · subst hj
      exact absurd hq hne
    · dsimp only [enqueueLine]
      rw [Function.update_of_ne hj]
      exact h.blocked hne

/-- What a read leaves in the terminal. -/
theorem takeBytes_rest {v : TtyState} {w : Kernel} (hl : v.line=none) (hq : v.inputQueue=rest) :
    ((ttyTakeBytes j line v w).terminals j).line.toList++
        ((ttyTakeBytes j line v w).terminals j).inputQueue=
      (lineRest line (lineCount line (w.tty w.currentProcess).readLen)).toList++rest := by
  dsimp only [ttyTakeBytes]
  rw [Function.update_self]
  split
  · rename_i r hr
    rw [hr,hq]
  · rename_i hr
    rw [hr,hl,hq]

/-- A handed line is read. -/
theorem takeHanded_order (hc : Coherent M s) (h : OrderOk i p s) (hp : OnlyReader i p s)
    (hk : (s.kernelContext s.currentProcess).point=.ttyRead j)
    (hl : (s.tty s.currentProcess).readLine=some line)
    (hown : j=i → s.currentProcess=p) :
    OrderOk i p (ttyTakeBytes j line (s.terminals j)
      (s.setKernelContext s.currentProcess ⟨s.currentProcess,.executing⟩)) := by
  have hlive := hc.ready.current_live
  obtain ⟨_,hnb,_⟩ := hc.reader.handed _ line hlive hl
  by_cases hj : j=i
  · subst hj
    have hcur := hown rfl
    rw [hcur] at hk hl hlive hnb
    have hhand : handedLine j p s=some line := by
      unfold handedLine
      rw [if_pos ⟨hlive,by rw [hk]; rfl⟩,hl]
    have hslot := h.handed (by rw [hhand]; exact Option.some_ne_none _)
    have hnone : handedLine j p (ttyTakeBytes j line (s.terminals j)
        (s.setKernelContext s.currentProcess ⟨s.currentProcess,.executing⟩))=none := by
      refine handedLine_none ?_
      dsimp only [ttyTakeBytes,Kernel.setKernelContext]
      rw [hcur,Function.update_self]
      exact fun he => nomatch he
    have hfirst : pending j p s=line::(s.terminals j).inputQueue := by
      unfold pending
      rw [hhand,hslot]
      rfl
    refine h.take rfl rfl hfirst ?_ hnone (hp.unblocked hc hlive hnb)
    unfold pending
    rw [hnone]
    exact takeBytes_rest hslot rfl
  · refine h.elsewhere hj rfl rfl ?_ (Function.update_of_ne (Ne.symm hj) ..) rfl
    by_cases hpc : p=s.currentProcess
    · have hbefore : handedLine i p s=none := by
        refine handedLine_none ?_
        rw [hpc,hk]
        exact fun he => hj (Option.some.inj he)
      rw [hbefore]
      refine handedLine_none ?_
      dsimp only [ttyTakeBytes,Kernel.setKernelContext]
      rw [hpc,Function.update_self]
      exact fun he => nomatch he
    · exact handedLine_same rfl (Function.update_of_ne hpc ..) (Function.update_of_ne hpc ..)

/-- The next line is read. -/
theorem takeLine_order (hc : Coherent M s) (h : OrderOk i p s) (hp : OnlyReader i p s)
    {v : TtyState} (ha : Active s) (hn : ttyNextLine (s.terminals j)=(some line,v))
    (hown : j=i → s.currentProcess=p) : OrderOk i p (ttyTakeBytes j line v s) := by
  have hexec : readTerminal (s.kernelContext s.currentProcess).point=none := by
    rw [ha.executing]
    rfl
  by_cases hj : j=i
  · subst hj
    have hcur := hown rfl
    rw [hcur] at hexec
    have hlive : s.live p=true := hcur ▸ hc.ready.current_live
    have hnb : s.state p≠.blocked := hcur ▸ ha.toRunnable.not_blocked
    have hbefore : handedLine j p s=none := by
      refine handedLine_none ?_
      rw [hexec]
      exact fun he => nomatch he
    have hnone : handedLine j p (ttyTakeBytes j line v s)=none := by
      refine handedLine_none ?_
      dsimp only [ttyTakeBytes]
      rw [hexec]
      exact fun he => nomatch he
    rcases ttyNextLine_cases hn with ⟨hl,rfl⟩|⟨hl,rest,hq,rfl⟩
    · have hfirst : pending j p s=line::(s.terminals j).inputQueue := by
        unfold pending
        rw [hbefore,hl]
        rfl
      refine h.take rfl rfl hfirst ?_ hnone (hp.unblocked hc hlive hnb)
      unfold pending
      rw [hnone]
      exact takeBytes_rest rfl rfl
    · have hfirst : pending j p s=line::rest := by
        unfold pending
        rw [hbefore,hl,hq]
        rfl
      refine h.take rfl rfl hfirst ?_ hnone (hp.unblocked hc hlive hnb)
      unfold pending
      rw [hnone]
      exact takeBytes_rest hl rfl
  · refine h.elsewhere hj rfl rfl ?_ (Function.update_of_ne (Ne.symm hj) ..) rfl
    by_cases hpc : p=s.currentProcess
    · have hbefore : handedLine i p s=none := by
        refine handedLine_none ?_
        rw [hpc,hexec]
        exact fun he => nomatch he
      rw [hbefore]
      refine handedLine_none ?_
      dsimp only [ttyTakeBytes]
      rw [hpc,hexec]
      exact fun he => nomatch he
    · exact handedLine_same rfl rfl (Function.update_of_ne hpc ..)

/-- Every operation keeps the order. -/
theorem op_order {b : Bool} (hc : Coherent M s) (h : OnlyReader i p s → OrderOk i p s)
    (hop : Op M allow b s t) (hp : OnlyReader i p t) : OrderOk i p t := by
  have hbefore : OnlyReader i p s := hp.before hc (.single ⟨b,hop⟩)
  have hs := h hbefore
  rcases op_still hc hop with hstill|hmove
  · exact hs.still hstill
  · cases hmove with
    | takeHanded j line hk hl ho =>
      refine takeHanded_order hc hs hbefore hk hl (fun hj => ?_)
      subst hj
      refine hp.returned _ line.stamp line.pos
        (lineCount line (s.tty s.currentProcess).readLen) ?_
      exact List.mem_append_right _ (List.mem_cons_of_mem _ List.mem_cons_self)
    | takeLine j line v ha hn =>
      refine takeLine_order hc hs hbefore ha hn (fun hj => ?_)
      subst hj
      refine hp.returned _ line.stamp line.pos
        (lineCount line (s.tty s.currentProcess).readLen) ?_
      exact List.mem_append_right _ (List.mem_cons_of_mem _ List.mem_cons_self)
    | deliver j line r rest hl hq => exact deliver_order hc hs hbefore hl hq
    | enqueue j line hl hq => exact enqueue_order hs hl hq

end Moves

section Reads

variable {env : Env} {g : PcbPtr → Option Entry} {input : Input} {f : Flow} {n rc : ℤ}
  {u : UserContext} {w : Kernel}

/-- A step that runs the loop of SysTtyRead on a terminal for a length, with the
outcome. -/
inductive TtyReadRuns (M : Machine) (env : Env) (s : Kernel) (g : PcbPtr → Option Entry) :
    Input → ℕ → ℤ → Flow → Prop
  /-- A TtyRead call of the running process. -/
  | call (u : UserContext) (hu : s.cpu=.user) (hv : u.vector=.kernel)
      (hr : M.syscallOf u.code=.ttyRead) :
      TtyReadRuns M env s g (.trap u) (u.int 0).toNat (u.int 2)
        (sysTtyRead M env s.currentProcess (u.int 0) (u.ptr 1) (u.int 2) u (saveContext u s))
  /-- A TtyRead call that goes on. -/
  | resumed (i : ℕ) (e : Entry) (hu : s.cpu=.kernel)
      (hk : (s.kernelContext s.currentProcess).point=.ttyRead i)
      (hg : g s.currentProcess=some e) :
      TtyReadRuns M env s g .resume i (e.context.int 2)
        (ttyReadLoop M env (s.kernelContext s.currentProcess).caller i (savedContext s)
          (s.setKernelContext s.currentProcess ⟨s.currentProcess,.executing⟩))

/-- These are the steps whose result is that of the loop. -/
theorem ttyReadRuns_step (h : TtyReadRuns M env s g input i n f) :
    ∃ caller,kernelStep M env s input=finish caller f := by
  cases h with
  | call u hu hv hr =>
    refine ⟨s.currentProcess,?_⟩
    simp only [kernelStep,trap,hv,trapKernel,syscallDispatch,hr]
  | resumed i e hu hk hg =>
    refine ⟨(s.kernelContext s.currentProcess).caller,?_⟩
    simp only [kernelStep,resume,continueAt,hk]
    rfl

/-- The lines that the loop finds. -/
def available (i : ℕ) (w : Kernel) : List TtyLine :=
  (w.tty w.currentProcess).readLine.toList++(w.terminals i).line.toList++
    (w.terminals i).inputQueue

/-- The loop takes the first line there is, and blocks without one. -/
theorem ttyReadLoop_result {c : PcbPtr} (hf : ttyReadLoop M env c i u w=f)
    (hs : (w.tty w.currentProcess).readLine≠none → (w.terminals i).line=none) :
    (∃ t,f=.leaves t ∧ available i w=[]) ∨
      ∃ line rest v,available i w=line::rest ∧
        f=.returns (ttyTakeBytes i line v w) u (lineCount line (w.tty w.currentProcess).readLen) ∧
        ((ttyTakeBytes i line v w).terminals i).line.toList++
            ((ttyTakeBytes i line v w).terminals i).inputQueue=
          (lineRest line (lineCount line (w.tty w.currentProcess).readLen)).toList++rest := by
  unfold ttyReadLoop at hf
  unfold available
  cases hr : (w.tty w.currentProcess).readLine with
  | some line =>
    rw [hr] at hf
    have hslot : (w.terminals i).line=none := hs (by rw [hr]; exact Option.some_ne_none _)
    refine .inr ⟨line,(w.terminals i).inputQueue,w.terminals i,?_,hf.symm,
      takeBytes_rest hslot rfl⟩
    rw [hslot]
    rfl
  | none =>
    rw [hr] at hf
    dsimp only at hf
    cases hn : ttyNextLine (w.terminals i) with
    | mk found v =>
      rw [hn] at hf
      cases found with
      | some line =>
        rcases ttyNextLine_cases hn with ⟨hl,rfl⟩|⟨hl,rest,hq,rfl⟩
        · refine .inr ⟨line,(w.terminals i).inputQueue,_,?_,hf.symm,takeBytes_rest rfl rfl⟩
          rw [hl]
          rfl
        · refine .inr ⟨line,rest,_,?_,hf.symm,takeBytes_rest hl rfl⟩
          rw [hl,hq]
          rfl
      | none =>
        refine .inl ⟨_,hf.symm,?_⟩
        unfold ttyNextLine at hn
        split at hn
        · cases hn
        · rename_i hl
          split at hn
          · rename_i hq
            rw [hl,hq]
            rfl
          · cases hn

/-- The bytes that a read gets. -/
theorem lineCount_min (hn : 0<n) :
    (lineCount line n.toNat : ℤ)=min n ((line.len-line.pos : ℕ) : ℤ) := by
  unfold lineCount
  split
  · omega
  · omega

/-- What a read by the reader of a terminal does: it takes what it asked for, or
what is unread, of the first waiting line, and blocks only if there is none. -/
structure ReadsFirst (i : ℕ) (p : PcbPtr) (s : Kernel) (n : ℤ) (f : Flow) : Prop where
  /-- A read that returns. -/
  takes : ∀ t u rc,f=.returns t u rc → rc≠ERROR → ∃ line rest,pending i p s=line::rest ∧
    rc=min n ((line.len-line.pos : ℕ) : ℤ) ∧
    pending i p t=(lineRest line rc.toNat).toList++rest ∧
    (script i t.log).received=(script i s.log).received ∧
    (script i t.log).returned=
      (script i s.log).returned++ByteCopy.segment line.data line.pos rc.toNat
  /-- A read that blocks. -/
  blocks : ∀ t,f=.leaves t → pending i p s=[]

/-- The loop reads the first line. -/
theorem loop_reads {c : PcbPtr} (h : OrderOk i p s) (hn : 0<n) (hcur : w.currentProcess=p)
    (hlen : (w.tty p).readLen=n.toNat) (hlog : w.log=s.log)
    (hk : readTerminal (w.kernelContext p).point=none) (ha : available i w=pending i p s)
    (hs : (w.tty w.currentProcess).readLine≠none → (w.terminals i).line=none) :
    ReadsFirst i p s n (ttyReadLoop M env c i u w) := by
  rcases ttyReadLoop_result (f := ttyReadLoop M env c i u w) rfl hs with
    ⟨t,hf,hnone⟩|⟨line,rest,v,hfound,hf,hrest⟩
  · refine ⟨fun t' u' rc' hf' _ => ?_,fun _ _ => ha.symm.trans hnone⟩
    rw [hf] at hf'
    cases hf'
  · refine ⟨fun t' u' rc' hf' _ => ?_,fun t' hf' => ?_⟩
    · rw [hf] at hf'
      injection hf' with ht _ hrc
      subst hrc
      rw [hcur,hlen] at hrest ⊢
      have hpending : pending i p s=line::rest := ha.symm.trans hfound
      have hscript : script i t'.log=enterEvent i (script i s.log)
          (.ttyReturned p i line.stamp line.pos (lineCount line n.toNat)) := by
        rw [←ht,←hcur,←hlen,←hcur]
        dsimp only [ttyTakeBytes]
        rw [script_append,hlog]
        rfl
      obtain ⟨hd,_⟩ := h.data line (by rw [hpending]; exact List.mem_cons_self)
      refine ⟨line,rest,hpending,lineCount_min hn,?_,?_,?_⟩
      · have hnone : handedLine i p t'=none := by
          refine handedLine_none ?_
          rw [←ht]
          dsimp only [ttyTakeBytes]
          rw [hk]
          exact fun he => nomatch he
        unfold pending
        rw [hnone,←ht,Int.toNat_natCast]
        exact hrest
      · rw [hscript]
        rfl
      · rw [hscript]
        dsimp only [enterEvent]
        rw [if_pos rfl,hd,Int.toNat_natCast]
    · rw [hf] at hf'
      cases hf'

/-- Every read by the reader of a terminal does so. -/
theorem ttyRead_reads {tables : PcbPtr → PageTable} (hs : Settled M s) (h : OrderOk i p s)
    (ha : UserPointers.Arguments s g tables) (hr : TtyReadRuns M env s g input i n f)
    (hcur : s.currentProcess=p) (hn : 0<n) : ReadsFirst i p s n f := by
  subst hcur
  have hlive := hs.ready.current_live
  have herror : ∀ t u,ReadsFirst i s.currentProcess s n (.returns t u ERROR) := by
    refine fun t u => ⟨fun t' u' rc' hf hne => ?_,fun t' hf => by cases hf⟩
    injection hf with _ _ hrc
    exact absurd hrc.symm hne
  cases hr with
  | call u hu hv hcall =>
    have hact := hs.user hu
    have hnone : (s.tty s.currentProcess).readLine=none := no_line hs.toCoherent hact
    have hexec : readTerminal (s.kernelContext s.currentProcess).point=none := by
      rw [hact.executing]
      rfl
    rw [saveContext_current u (hs.ready.ne_null hlive)]
    unfold sysTtyRead
    split
    · exact herror _ _
    · split
      · omega
      · split
        · exact herror _ _
        · have hline : (Function.update s.tty s.currentProcess {s.tty s.currentProcess with
              ttyId := (u.int 0).toNat, readBuf := u.ptr 1, readLen := (u.int 2).toNat}
                s.currentProcess).readLine=none := by
            rw [Function.update_self]
            exact hnone
          refine loop_reads h hn rfl ?_ rfl hexec ?_ (fun hne => absurd hline hne)
          · dsimp only [Kernel.setTty,Kernel.setUserContext]
            rw [Function.update_self]
          · have hnothing : handedLine (u.int 0).toNat s.currentProcess s=none := by
              refine handedLine_none ?_
              rw [hexec]
              exact fun he => nomatch he
            unfold available pending
            rw [hnothing]
            exact congrArg (fun o : Option TtyLine => o.toList++_++_) hline
  | resumed i e hu hk hg =>
    have hhand := handedLine_read hlive hk
    obtain ⟨_,hlen⟩ := ha.read _ e i hlive hg hk
    refine loop_reads h hn rfl hlen rfl ?_ ?_ (fun hne => h.handed ?_)
    · dsimp only [Kernel.setKernelContext]
      rw [Function.update_self]
      rfl
    · unfold available pending
      rw [hhand]
      rfl
    · rw [hhand]
      exact hne

/-- The order holds in every state in which all reads were those of one process. -/
theorem reachable_order (h : Reachable M s) (hp : OnlyReader i p s) :
    Settled M s ∧ OrderOk i p s := by
  have hboot : ∀ (b : Boot M) p' q pfn pfns m₁ m₂ m v u,
      OrderOk i p (bootedKernel M b p' q pfn pfns m₁ m₂ m v u) := by
    intro b p' q pfn pfns m₁ m₂ m v u
    have hempty : pending i p (bootedKernel M b p' q pfn pfns m₁ m₂ m v u)=[] := by
      unfold pending handedLine
      split
      · rfl
      · rfl
    refine ⟨?_,fun line hl => ?_,fun _ => rfl,fun _ => ⟨rfl,rfl⟩⟩
    · rw [hempty]
      rfl
    · rw [hempty] at hl
      cases hl
  obtain ⟨hs,ho⟩ := reachable_invariant (P := fun s => OnlyReader i p s → OrderOk i p s)
    (fun b p' q pfn pfns m₁ m₂ m v u _ _ => hboot b p' q pfn pfns m₁ m₂ m v u)
    (fun c s t hc ho hop => op_order hc ho hop) h
  exact ⟨hs,ho hp⟩

/-- A watched run with the page tables of its traps. -/
theorem entryRun_tables (h : EntryRun M SwitchSucceeds s g) :
    ∃ tables,UserPointers.TableRun M SwitchSucceeds s g tables := by
  induction h with
  | boot b hu => exact ⟨_,.boot b hu⟩
  | step env input hr he hok ih =>
    obtain ⟨tables,ht⟩ := ih
    exact ⟨_,.step env input ht he hok⟩

/-- In every state of every run in which all reads of a terminal were those of
one process, the bytes received are those returned, followed by the unread ones
of the line in its hands, of the line in the slot and of the queued lines; and
each of its reads takes as many bytes as it asks for and are unread of the first
of these lines, or blocks if there is none. -/
theorem run_singleReader (M : Machine) (s : Kernel) (g : PcbPtr → Option Entry)
    (h : EntryRun M SwitchSucceeds s g) (i : ℕ) (p : PcbPtr) (hp : OnlyReader i p s) :
    (script i s.log).received=(script i s.log).returned++(pending i p s).flatMap unread ∧
      ∀ env input n f,TtyReadRuns M env s g input i n f → s.currentProcess=p → 0<n →
        (∃ caller,kernelStep M env s input=finish caller f) ∧ ReadsFirst i p s n f := by
  obtain ⟨hs,ho⟩ := reachable_order h.run hp
  obtain ⟨tables,ht⟩ := entryRun_tables h
  have ha := UserPointers.run_arguments (fun _ _ _ hok => hok) ht
  exact ⟨ho.text,fun env input n f hr hcur hn =>
    ⟨ttyReadRuns_step hr,ttyRead_reads hs ho ha hr hcur hn⟩⟩

/-- Whether an event is no read of a terminal by another process. -/
def readsBy (i : ℕ) (p : PcbPtr) : Event → Bool
  | .woken q (.pop (.readQueue j)) => decide (j=i → q=p)
  | .ttyReturned q j _ _ _ => decide (j=i → q=p)
  | _ => true

/-- What the test says of a history. -/
theorem of_readsBy (hq : s.queue (.readQueue i)=[]) (h : s.log.all (readsBy i p)=true) :
    OnlyReader i p s := by
  rw [List.all_eq_true] at h
  refine ⟨fun q hm => ?_,fun q hm => of_decide_eq_true (h _ hm) rfl,
    fun q n pos count hm => of_decide_eq_true (h _ hm) rfl⟩
  rw [hq] at hm
  cases hm

/-- The initial process is handed a line of five bytes and asks for two. -/
theorem run_singleReader_sample : ∃ s g,EntryRun sampleMachine SwitchSucceeds s g ∧
    OnlyReader 0 2 s ∧ (script 0 s.log).returned=[65,66] ∧
    (script 0 s.log).received=[65,66]++(pending 0 2 s).flatMap unread := by
  have htest : ∀ s env input,switchTest s env input=true → SwitchSucceeds s env input :=
    fun _ _ _ h => h
  obtain ⟨s,g,hr,hp⟩ := replayEntries_exists htest (.boot sampleBoot sampleBoot_user)
    [callInput 8 0 0x105001 2,resumeInput,lineInput,tickInput,resumeInput]
    (fun s _ => decide (s.queue (.readQueue 0)=[] ∧ s.log.all (readsBy 0 2)=true ∧
      (script 0 s.log).returned=[65,66])) (by decide +kernel)
  obtain ⟨hq,hl,hret⟩ := of_decide_eq_true hp
  have hone := of_readsBy hq hl
  have htext := (run_singleReader sampleMachine s g hr 0 2 hone).1
  rw [hret] at htext
  exact ⟨s,g,hr,hone,hret,htext⟩

end Reads

end Yalnix.TerminalOrder
