import Yalnix.Placement
import Yalnix.TerminalReaders

/-!
# Bytes received from terminals

A line is named by the stamp of its receive trap, a byte by its line and its
index. Every accepted byte has been returned by one read or is unread in one
line, which is in the slot of its terminal, in its input queue or with a woken
reader. The slot holds one line only: a reader that leaves part of a handed
line behind drops a line that is already there. In runs in which this does not
happen no byte is lost.
-/

namespace Yalnix.TerminalInput

open Framework FrameTable KernelState Scheduling Ipc Terminals ProcessLifetime ProgramLoading
open Syscalls Traps KernelStart Coherence Operations OperationCoherence CallOperations
open RunInvariants Placement Traces

/-- Whether an event returns a byte, given by its line and its index. -/
def returnsByte (b : ℕ × ℕ) : Event → Bool
  | .ttyReturned _ _ n pos count => decide (n=b.1 ∧ pos≤b.2 ∧ b.2<pos+count)
  | _ => false

/-- How often a byte has been returned. -/
def timesReturned (log : List Event) (b : ℕ × ℕ) : ℕ := log.countP (returnsByte b)

/-- The byte belongs to a line that was accepted. -/
def Accepted (log : List Event) (b : ℕ × ℕ) : Prop :=
  ∃ i len data,Event.ttyReceived i b.1 len data∈log ∧ b.2<len

/-- Where a line can be. -/
inductive Spot
  /-- In the slot of a terminal. -/
  | slot (i : ℕ)
  /-- In the input queue of a terminal. -/
  | queued (i k : ℕ)
  /-- The line has been handed to a process. -/
  | handed (p : PcbPtr)
  deriving DecidableEq

/-- The terminal a stopped reader reads from. -/
def readTerminal : KernelPoint → Option ℕ
  | .ttyRead i => some i
  | _ => none

/-- The line at a spot, with the terminal it is read from. -/
def lineAt (live : PcbPtr → Bool) (saved : PcbPtr → KernelContext) (tty : PcbPtr → TtyRequest)
    (terminals : ℕ → TtyState) : Spot → Option (Option ℕ × TtyLine)
  | .slot i => (terminals i).line.map (fun line => (some i,line))
  | .queued i k => ((terminals i).inputQueue[k]?).map (fun line => (some i,line))
  | .handed p =>
    if live p=true then
      (tty p).readLine.map (fun line => (readTerminal (saved p).point,line))
    else none

/-- The line at a spot of a kernel. -/
abbrev held (s : Kernel) : Spot → Option (Option ℕ × TtyLine) :=
  lineAt s.live s.kernelContext s.tty s.terminals

/-- A byte is in the unread part of a line. -/
def Unread (line : TtyLine) (b : ℕ × ℕ) : Prop := line.stamp=b.1 ∧ line.pos≤b.2 ∧ b.2<line.len

/-- A byte is unread at a spot. -/
def UnreadAt (lines : Spot → Option (Option ℕ × TtyLine)) (x : Spot) (b : ℕ × ℕ) : Prop :=
  ∃ t line,lines x=some (t,line) ∧ Unread line b

/-- The bytes a read of len bytes returns. -/
def Taken (line : TtyLine) (len : ℕ) (b : ℕ × ℕ) : Prop :=
  line.stamp=b.1 ∧ line.pos≤b.2 ∧ b.2<line.pos+lineCount line len

/-- The lines that are held agree with the history. -/
structure Ledger (lines : Spot → Option (Option ℕ × TtyLine)) (stamp : ℕ) (log : List Event) :
    Prop where
  /-- The accepted bytes that were not returned are in one place each. -/
  placed : Placed (fun b => Accepted log b ∧ timesReturned log b=0) (UnreadAt lines)
  /-- No byte is returned twice. -/
  once : ∀ b,timesReturned log b≤1
  /-- Only accepted bytes are returned. -/
  accepted : ∀ b,timesReturned log b≠0 → Accepted log b
  /-- A held line was accepted from its terminal. -/
  source : ∀ x t line,lines x=some (t,line) →
    ∃ i,t=some i ∧ Event.ttyReceived i line.stamp line.len line.data∈log
  /-- Stamps of lines are used. -/
  used : ∀ i n len data,Event.ttyReceived i n len data∈log → n< stamp
  /-- A stamp belongs to one line. -/
  line : ∀ n i len data i' len' data',Event.ttyReceived i n len data∈log →
    Event.ttyReceived i' n len' data'∈log → i=i' ∧ len=len' ∧ data=data'

/-- Events that are not about terminal input. -/
def Mute : Event → Prop
  | .ttyReceived _ _ _ _ => False
  | .ttyReturned _ _ _ _ _ => False
  | _ => True

variable {M : Machine} {allow : Label → Prop} {s t : Kernel}
  {lines lines' : Spot → Option (Option ℕ × TtyLine)} {stamp stamp' : ℕ} {log l : List Event}
  {line : TtyLine} {b : ℕ × ℕ} {x : Spot} {p : PcbPtr} {i n : ℕ}

section Bytes

/-- Returns are counted event by event. -/
theorem timesReturned_append : timesReturned (log++l) b=timesReturned log b+timesReturned l b :=
  List.countP_append

/-- Events that return no bytes add nothing to what was returned. -/
theorem timesReturned_mute (hl : ∀ e∈l,Mute e) : timesReturned l b=0 := by
  refine List.countP_eq_zero.2 (fun e he => ?_)
  have hm := hl e he
  cases e with
  | ttyReturned p i n pos count => exact absurd hm id
  | _ => exact Bool.false_ne_true

/-- Events that accept no line add nothing to what was received. -/
theorem received_mute (hl : ∀ e∈l,Mute e) {i n len : ℕ} {data : ℕ → UInt8} :
    Event.ttyReceived i n len data∈log++l ↔ Event.ttyReceived i n len data∈log := by
  rw [List.mem_append]
  exact or_iff_left (fun he => hl _ he)

/-- The rest of a line is what was unread and is not taken. -/
theorem unread_rest (hu : Unread line b) (ht : ¬Taken line n b) :
    ∃ rest,lineRest line (lineCount line n)=some rest ∧ Unread rest b := by
  have hge : line.pos+lineCount line n≤b.2 := by
    by_contra hlt
    exact ht ⟨hu.1,hu.2.1,by omega⟩
  unfold lineRest
  rw [if_pos (by have := hu.2.2; omega)]
  exact ⟨_,rfl,hu.1,hge,hu.2.2⟩

/-- What is unread in the rest was unread and is not taken. -/
theorem rest_unread {rest : TtyLine} (hr : lineRest line (lineCount line n)=some rest)
    (hu : Unread rest b) : Unread line b ∧ ¬Taken line n b := by
  unfold lineRest at hr
  split at hr
  · injection hr with hr
    rw [←hr] at hu
    obtain ⟨hs,hp,hl⟩ := hu
    dsimp only at hs hp hl
    exact ⟨⟨hs,by omega,hl⟩,fun ht => absurd ht.2.2 (by omega)⟩
  · cases hr

/-- Bytes that are taken were unread. -/
theorem taken_unread (h : Taken line n b) : Unread line b := by
  obtain ⟨hs,hp,hl⟩ := h
  unfold lineCount at hl
  refine ⟨hs,hp,?_⟩
  split at hl <;> omega

end Bytes

section Ledgers

/-- Before any line has arrived the ledger is empty. -/
theorem Ledger.empty (hx : ∀ x,lines x=none) : Ledger lines stamp [] where
  placed := by
    refine ⟨fun b => ⟨?_,?_⟩,fun b x y hu => ?_⟩
    · rintro ⟨⟨i,len,data,hr,_⟩,_⟩
      cases hr
    · rintro ⟨x,t,line,hl,_⟩
      rw [hx] at hl
      cases hl
    · obtain ⟨t,line,hl,_⟩ := hu
      rw [hx] at hl
      cases hl
  once b := Nat.zero_le 1
  accepted b hb := absurd rfl hb
  source x t line hl := by
    rw [hx] at hl
    cases hl
  used i n len data hr := by cases hr
  line n i len data i' len' data' hr := by cases hr

/-- Lines stay where they are. -/
theorem Ledger.keep (h : Ledger lines stamp log) (hx : ∀ x,lines' x=lines x) :
    Ledger lines' stamp log := by
  have he : lines'=lines := funext hx
  rwa [he]

/-- A stamp that is used for something else leaves the ledger as it is. -/
theorem Ledger.later (h : Ledger lines stamp log) (hs : stamp≤ stamp') : Ledger lines stamp' log :=
  ⟨h.placed,h.once,h.accepted,h.source,
    fun i n len data hr => Nat.lt_of_lt_of_le (h.used i n len data hr) hs,h.line⟩

/-- Nothing is said about terminal input. -/
theorem Ledger.mute (h : Ledger lines stamp log) (hl : ∀ e∈l,Mute e) :
    Ledger lines stamp (log++l) := by
  have ht : ∀ b,timesReturned (log++l) b=timesReturned log b := by
    intro b
    rw [timesReturned_append,timesReturned_mute hl,Nat.add_zero]
  have ha : ∀ b,Accepted (log++l) b ↔ Accepted log b := by
    intro b
    simp only [Accepted,received_mute hl]
  refine ⟨?_,fun b => ?_,fun b hb => ?_,fun x t line hline => ?_,fun i n len data hr => ?_,?_⟩
  · simp only [ha,ht]
    exact h.placed
  · rw [ht]
    exact h.once b
  · rw [ht] at hb
    exact (ha b).2 (h.accepted b hb)
  · simp only [received_mute hl]
    exact h.source x t line hline
  · rw [received_mute hl] at hr
    exact h.used i n len data hr
  · simp only [received_mute hl]
    exact h.line

/-- A new line has arrived at an empty spot. -/
theorem Ledger.arrive (h : Ledger lines stamp log) (hl : line.stamp=stamp ∧ line.pos=0)
    (hx : lines x=none) (hx' : lines' x=some (some i,line)) (ho : ∀ y,y≠x → lines' y=lines y) :
    Ledger lines' (stamp+1) (log++[.ttyReceived i line.stamp line.len line.data]) := by
  have hmem : ∀ {i' n len data},Event.ttyReceived i' n len data∈
      log++[.ttyReceived i line.stamp line.len line.data] ↔ Event.ttyReceived i' n len data∈log ∨
        i'=i ∧ n=line.stamp ∧ len=line.len ∧ data=line.data := by
    simp
  have hnew : ∀ b,Unread line b → ¬Accepted log b := by
    rintro b ⟨hb,_⟩ ⟨i',len,data,hr,_⟩
    have := h.used _ _ _ _ hr
    omega
  have hzero : ∀ b,Unread line b → timesReturned log b=0 := by
    intro b hb
    by_contra hne
    exact hnew b hb (h.accepted b hne)
  have ha : ∀ b,Accepted (log++[.ttyReceived i line.stamp line.len line.data]) b ↔
      Accepted log b ∨ Unread line b := by
    intro b
    unfold Accepted Unread
    simp only [hmem,hl.2]
    constructor
    · rintro ⟨i',len,data,hr|⟨_,hn,hlen,_⟩,hb⟩
      · exact .inl ⟨i',len,data,hr,hb⟩
      · exact .inr ⟨hn.symm,Nat.zero_le _,by omega⟩
    · rintro (⟨i',len,data,hr,hb⟩|⟨hn,_,hb⟩)
      · exact ⟨i',len,data,.inl hr,hb⟩
      · exact ⟨i,line.len,line.data,.inr ⟨rfl,hn.symm,rfl,rfl⟩,hb⟩
  have ht : ∀ b,timesReturned (log++[.ttyReceived i line.stamp line.len line.data]) b=
      timesReturned log b := fun b => timesReturned_append
  refine ⟨?_,fun b => ?_,fun b hb => ?_,fun y t' line' hy => ?_,fun i' n len data hr => ?_,?_⟩
  · refine h.placed.arrive (Unread line) (fun _ => x) (fun b hb hm => hnew b hb hm.1) (fun b => ?_)
      (fun y b => ?_)
    · rw [ha,ht]
      constructor
      · rintro ⟨hb|hb,hz⟩
        · exact .inl ⟨hb,hz⟩
        · exact .inr hb
      · rintro (⟨hb,hz⟩|hb)
        · exact ⟨.inl hb,hz⟩
        · exact ⟨.inr hb,hzero b hb⟩
    · unfold UnreadAt
      by_cases he : y=x
      · rw [he,hx,hx']
        constructor
        · rintro ⟨t',line',heq,hu⟩
          injection heq with heq
          injection heq with _ heq
          rw [←heq] at hu
          exact .inr ⟨hu,rfl⟩
        · rintro (⟨_,_,heq,_⟩|⟨hu,_⟩)
          · cases heq
          · exact ⟨_,_,rfl,hu⟩
      · rw [ho y he]
        exact ⟨fun hu => .inl hu,fun hu => hu.resolve_right (fun hn => he hn.2.symm)⟩
  · rw [ht]
    exact h.once b
  · rw [ht] at hb
    exact (ha b).2 (.inl (h.accepted b hb))
  · simp only [hmem]
    by_cases he : y=x
    · rw [he,hx'] at hy
      injection hy with hy
      injection hy with ht' hline
      rw [←ht',←hline]
      exact ⟨i,rfl,.inr ⟨rfl,rfl,rfl,rfl⟩⟩
    · rw [ho y he] at hy
      obtain ⟨i',hi,hr⟩ := h.source y t' line' hy
      exact ⟨i',hi,.inl hr⟩
  · rcases hmem.1 hr with hr|⟨_,hn,_⟩
    · exact Nat.lt_succ_of_lt (h.used i' n len data hr)
    · omega
  · intro n i₁ len₁ data₁ i₂ len₂ data₂ h₁ h₂
    rcases hmem.1 h₁ with h₁|⟨rfl,hn,rfl,rfl⟩
    · rcases hmem.1 h₂ with h₂|⟨_,hn,_,_⟩
      · exact h.line n _ _ _ _ _ _ h₁ h₂
      · exact absurd (h.used _ _ _ _ h₁) (by omega)
    · rcases hmem.1 h₂ with h₂|⟨rfl,_,rfl,rfl⟩
      · exact absurd (h.used _ _ _ _ h₂) (by omega)
      · exact ⟨rfl,rfl,rfl⟩

/-- A read takes the first bytes of a line, and the rest may go elsewhere. -/
theorem Ledger.take (h : Ledger lines stamp log) (f : Spot → Spot)
    (hx : lines x=some (some i,line))
    (hkeep : ∀ y,y≠x → ∀ v,lines y=some v → lines' (f y)=some v)
    (hrest : ∀ rest,lineRest line (lineCount line n)=some rest → lines' (f x)=some (some i,rest))
    (hfrom : ∀ y v,lines' y=some v → (∃ z,z≠x ∧ lines z=some v ∧ f z=y) ∨
      ∃ rest,lineRest line (lineCount line n)=some rest ∧ v=(some i,rest) ∧ f x=y) :
    Ledger lines' stamp
      (log++[.ttyReturned p i line.stamp line.pos (lineCount line n)]) := by
  have hl : ∀ {i' m len data},Event.ttyReceived i' m len data∈
      log++[.ttyReturned p i line.stamp line.pos (lineCount line n)] ↔
        Event.ttyReceived i' m len data∈log := by
    simp
  have ha : ∀ b,Accepted (log++[.ttyReturned p i line.stamp line.pos (lineCount line n)]) b ↔
      Accepted log b := by
    intro b
    simp only [Accepted,hl]
  have htaken : ∀ b,Taken line n b →
      timesReturned (log++[.ttyReturned p i line.stamp line.pos (lineCount line n)]) b=
        timesReturned log b+1 := by
    intro b hb
    rw [timesReturned_append]
    congr 1
    exact List.countP_eq_length.2 (by simpa [returnsByte,Taken] using hb)
  have hother : ∀ b,¬Taken line n b →
      timesReturned (log++[.ttyReturned p i line.stamp line.pos (lineCount line n)]) b=
        timesReturned log b := by
    intro b hb
    rw [timesReturned_append]
    refine Nat.add_eq_left.2 (List.countP_eq_zero.2 (fun e he => ?_))
    rw [List.mem_singleton.1 he]
    intro hr
    simp only [returnsByte,decide_eq_true_eq] at hr
    exact hb hr
  have hat : ∀ b,Taken line n b → UnreadAt lines x b :=
    fun b hb => ⟨some i,line,hx,taken_unread hb⟩
  refine ⟨?_,fun b => ?_,fun b hb => ?_,fun y t' line' hy => ?_,fun i' m len data hr => ?_,?_⟩
  · refine h.placed.shift (Taken line n) f (fun b => ?_) (fun y b => ?_)
    · rw [ha]
      by_cases hb : Taken line n b
      · rw [htaken b hb]
        simp [hb]
      · rw [hother b hb]
        simp [hb]
    · constructor
      · rintro ⟨t',line',hy,hu⟩
        rcases hfrom y _ hy with ⟨z,hz,hlz,hf⟩|⟨rest,hr,hv,hf⟩
        · refine ⟨z,⟨t',line',hlz,hu⟩,fun hb => ?_,hf⟩
          exact hz (h.placed.unique b z x ⟨t',line',hlz,hu⟩ (hat b hb))
        · injection hv with _ hv
          rw [hv] at hu
          obtain ⟨hu,hn⟩ := rest_unread hr hu
          exact ⟨x,⟨some i,line,hx,hu⟩,hn,hf⟩
      · rintro ⟨z,⟨t',line',hz,hu⟩,hn,hf⟩
        rw [←hf]
        by_cases he : z=x
        · rw [he,hx] at hz
          injection hz with hz
          injection hz with _ hz
          rw [←hz] at hu
          obtain ⟨rest,hr,hu⟩ := unread_rest hu hn
          rw [he]
          exact ⟨some i,rest,hrest rest hr,hu⟩
        · exact ⟨t',line',hkeep z he _ hz,hu⟩
  · by_cases hb : Taken line n b
    · rw [htaken b hb,((h.placed.held b).2 ⟨x,hat b hb⟩).2]
    · rw [hother b hb]
      exact h.once b
  · rw [ha]
    by_cases ht : Taken line n b
    · exact ((h.placed.held b).2 ⟨x,hat b ht⟩).1
    · rw [hother b ht] at hb
      exact h.accepted b hb
  · simp only [hl]
    rcases hfrom y _ hy with ⟨z,_,hlz,_⟩|⟨rest,hr,hv,_⟩
    · exact h.source z t' line' hlz
    · injection hv with ht' hv
      unfold lineRest at hr
      split at hr
      · injection hr with hr
        rw [ht',hv,←hr]
        obtain ⟨i',hi,hrec⟩ := h.source x _ _ hx
        injection hi with hi
        rw [←hi] at hrec
        exact ⟨i,rfl,hrec⟩
      · cases hr
  · exact h.used i' m len data (hl.1 hr)
  · simp only [hl]
    exact h.line

end Ledgers

section Lines

variable {live : PcbPtr → Bool} {saved : PcbPtr → KernelContext} {tty tty' : PcbPtr → TtyRequest}
  {terminals terminals' : ℕ → TtyState}

/-- Lines stay where they are. -/
theorem lineAt_keep {live' : PcbPtr → Bool} {saved' : PcbPtr → KernelContext}
    (hi : ∀ i,(terminals' i).line=(terminals i).line ∧
      (terminals' i).inputQueue=(terminals i).inputQueue)
    (hp : ∀ p,lineAt live' saved' tty' terminals' (.handed p)=
      lineAt live saved tty terminals (.handed p)) (x : Spot) :
    lineAt live' saved' tty' terminals' x=lineAt live saved tty terminals x := by
  cases x with
  | slot i =>
    dsimp only [lineAt]
    rw [(hi i).1]
  | queued i k =>
    dsimp only [lineAt]
    rw [(hi i).2]
  | handed p => exact hp p

/-- A process without a line saves another point. -/
theorem lineAt_saved {k : KernelContext} (h : (tty p).readLine=none) (x : Spot) :
    lineAt live (Function.update saved p k) tty terminals x=lineAt live saved tty terminals x := by
  refine lineAt_keep (fun _ => ⟨rfl,rfl⟩) (fun c => ?_) x
  dsimp only [lineAt]
  by_cases he : c=p
  · rw [he,h]
    rfl
  · rw [Function.update_of_ne he]

/-- Requests with the same lines. -/
theorem lineAt_tty (h : ∀ p,(tty' p).readLine=(tty p).readLine) (x : Spot) :
    lineAt live saved tty' terminals x=lineAt live saved tty terminals x := by
  refine lineAt_keep (fun _ => ⟨rfl,rfl⟩) (fun c => ?_) x
  dsimp only [lineAt]
  rw [h]

/-- A request changes in other respects. -/
theorem lineAt_request {r : TtyRequest} (h : r.readLine=(tty p).readLine) (x : Spot) :
    lineAt live saved (Function.update tty p r) terminals x=lineAt live saved tty terminals x := by
  refine lineAt_tty (fun c => ?_) x
  by_cases he : c=p
  · rw [he,Function.update_self,h]
  · rw [Function.update_of_ne he]

/-- A terminal changes in other respects. -/
theorem lineAt_terminal {v : TtyState} (hl : v.line=(terminals i).line)
    (hq : v.inputQueue=(terminals i).inputQueue) (x : Spot) :
    lineAt live saved tty (Function.update terminals i v) x=
      lineAt live saved tty terminals x := by
  have hp : ∀ c,lineAt live saved tty (Function.update terminals i v) (.handed c)=
      lineAt live saved tty terminals (.handed c) := fun c => rfl
  refine lineAt_keep (fun j => ?_) hp x
  by_cases he : j=i
  · rw [he,Function.update_self]
    exact ⟨hl,hq⟩
  · rw [Function.update_of_ne he]
    exact ⟨rfl,rfl⟩

/-- A process without a line comes or goes. -/
theorem lineAt_live {a : Bool} (h : (tty p).readLine=none) (x : Spot) :
    lineAt (Function.update live p a) saved tty terminals x=lineAt live saved tty terminals x := by
  refine lineAt_keep (fun _ => ⟨rfl,rfl⟩) (fun c => ?_) x
  dsimp only [lineAt]
  by_cases he : c=p
  · rw [he,h]
    simp
  · rw [Function.update_of_ne he]

/-- The request of a block that is not in use. -/
theorem lineAt_dead {r : TtyRequest} (h : live p=false) (x : Spot) :
    lineAt live saved (Function.update tty p r) terminals x=lineAt live saved tty terminals x := by
  refine lineAt_keep (fun _ => ⟨rfl,rfl⟩) (fun c => ?_) x
  dsimp only [lineAt]
  by_cases he : c=p
  · rw [he,h]
    rfl
  · rw [Function.update_of_ne he]

end Lines

/-- The lines of a kernel agree with its history. -/
def LinesOk (s : Kernel) : Prop := Ledger (held s) s.stamp s.log

/-- Nothing is handed to a blocked process or a zombie. -/
theorem no_line_stopped (hc : Coherent M s) (hl : s.live p=true)
    (hb : s.state p=.blocked ∨ s.state p=.zombie) : (s.tty p).readLine=none := by
  cases hr : (s.tty p).readLine with
  | none => rfl
  | some line =>
    obtain ⟨_,hn,hz⟩ := hc.reader.handed p line hl hr
    rcases hb with hb|hb
    · exact absurd hb hn
    · exact absurd hb hz

/-- A handed line whose rest finds the slot empty, if there is a rest. -/
def Fits : Label → Prop
  | .handed line len slot _ => ¬(len<line.len-line.pos ∧ slot≠none)
  | _ => True

/-- The lines without the one that is read: its reader has none any more, and
its terminal is given. -/
def linesWithout (s : Kernel) (k : PcbPtr → KernelContext) (i : ℕ) (v : TtyState) :
    Spot → Option (Option ℕ × TtyLine) :=
  lineAt s.live k (Function.update s.tty s.currentProcess
    {s.tty s.currentProcess with readLine := none}) (Function.update s.terminals i v)

/-- A read of a line whose rest finds the slot empty. -/
theorem LinesOk.take (h : LinesOk s) {k : PcbPtr → KernelContext} {v : TtyState} (g : Spot → Spot)
    (hx : held s x=some (some i,line))
    (hkeep : ∀ y,y≠x → ∀ w,held s y=some w → linesWithout s k i v (g y)=some w)
    (hfrom : ∀ y w,linesWithout s k i v y=some w → ∃ z,z≠x ∧ held s z=some w ∧ g z=y)
    (hv : lineRest line (lineCount line (s.tty s.currentProcess).readLen)=none ∨ v.line=none) :
    LinesOk (ttyTakeBytes i line v {s with kernelContext := k}) := by
  have hm := Ledger.mute h (l := [.stored s.currentProcess (s.tty s.currentProcess).readBuf
    (lineCount line (s.tty s.currentProcess).readLen)]) (by simp [Mute])
  unfold LinesOk ttyTakeBytes
  dsimp only
  rw [List.append_cons]
  cases hr : lineRest line (lineCount line (s.tty s.currentProcess).readLen) with
  | none =>
    dsimp only
    refine hm.take (fun y => if y=x then .slot i else g y) hx (fun y hy w hw => ?_) ?_
      (fun y w hw => ?_)
    · rw [if_neg hy]
      exact hkeep y hy w hw
    · intro rest hrest
      rw [hr] at hrest
      cases hrest
    · obtain ⟨z,hz,hl,hg⟩ := hfrom y w hw
      exact .inl ⟨z,hz,hl,by rw [if_neg hz]; exact hg⟩
  | some rest =>
    dsimp only
    have hn : v.line=none := by
      rcases hv with hv|hv
      · rw [hr] at hv
        cases hv
      · exact hv
    have hslot : linesWithout s k i v (.slot i)=none := by
      dsimp only [linesWithout,lineAt]
      rw [Function.update_self,hn]
      rfl
    have hat : linesWithout s k i {v with line := some rest} (.slot i)=some (some i,rest) := by
      dsimp only [linesWithout,lineAt]
      rw [Function.update_self]
      rfl
    have hother : ∀ y,y≠.slot i → linesWithout s k i {v with line := some rest} y=
        linesWithout s k i v y := by
      intro y hy
      dsimp only [linesWithout]
      cases y with
      | slot j =>
        have hj : j≠i := fun he => hy (by rw [he])
        dsimp only [lineAt]
        rw [Function.update_of_ne hj,Function.update_of_ne hj]
      | queued j m =>
        dsimp only [lineAt]
        by_cases hj : j=i
        · rw [hj,Function.update_self,Function.update_self]
        · rw [Function.update_of_ne hj,Function.update_of_ne hj]
      | handed c => rfl
    refine hm.take (fun y => if y=x then .slot i else g y) hx (fun y hy w hw => ?_) ?_
      (fun y w hw => ?_)
    · have hg := hkeep y hy w hw
      rw [if_neg hy]
      exact (hother _ (by rintro he; rw [he,hslot] at hg; cases hg)).trans hg
    · intro rest' hrest
      rw [hr] at hrest
      injection hrest with hrest
      rw [if_pos rfl,←hrest]
      exact hat
    · by_cases hy : y=.slot i
      · rw [hy] at hw
        injection hat.symm.trans hw with hw
        exact .inr ⟨rest,hr,hw.symm,by rw [if_pos rfl,hy]⟩
      · obtain ⟨z,hz,hl,hg⟩ := hfrom y w ((hother y hy).symm.trans hw)
        exact .inl ⟨z,hz,hl,by rw [if_neg hz]; exact hg⟩

/-- A read of a handed line. -/
theorem linesOk_takeHanded (hc : Coherent M s) (h : LinesOk s)
    (hk : (s.kernelContext s.currentProcess).point=.ttyRead i)
    (hl : (s.tty s.currentProcess).readLine=some line)
    (hf : ¬((s.tty s.currentProcess).readLen<line.len-line.pos ∧ (s.terminals i).line≠none)) :
    LinesOk (ttyTakeBytes i line (s.terminals i)
      (s.setKernelContext s.currentProcess ⟨s.currentProcess,.executing⟩)) := by
  have hx : held s (.handed s.currentProcess)=some (some i,line) := by
    dsimp only [held,lineAt]
    rw [if_pos hc.ready.current_live,hl,hk]
    rfl
  have hself : linesWithout s (Function.update s.kernelContext s.currentProcess
      ⟨s.currentProcess,.executing⟩) i (s.terminals i) (.handed s.currentProcess)=none := by
    dsimp only [linesWithout,lineAt]
    rw [Function.update_self]
    simp
  have hsame : ∀ y,y≠.handed s.currentProcess → linesWithout s
      (Function.update s.kernelContext s.currentProcess ⟨s.currentProcess,.executing⟩) i
      (s.terminals i) y=held s y := by
    intro y hy
    dsimp only [linesWithout,held]
    rw [Function.update_eq_self]
    cases y with
    | slot j => rfl
    | queued j m => rfl
    | handed c =>
      have hne : c≠s.currentProcess := fun he => hy (by rw [he])
      dsimp only [lineAt]
      rw [Function.update_of_ne hne,Function.update_of_ne hne]
  refine h.take id hx (fun y hy w hw => ?_) (fun y w hw => ?_) ?_
  · exact (hsame y hy).trans hw
  · have hy : y≠.handed s.currentProcess := by
      rintro rfl
      rw [hself] at hw
      cases hw
    exact ⟨y,hy,(hsame y hy).symm.trans hw,rfl⟩
  · by_cases hn : (s.tty s.currentProcess).readLen<line.len-line.pos
    · exact .inr (by by_contra hne; exact hf ⟨hn,hne⟩)
    · exact .inl (TerminalReaders.lineRest_none hn)

/-- The spot of a queued line once the first of its queue is gone. -/
def unshift (i : ℕ) : Spot → Spot
  | .queued j (k+1) => if j=i then .queued j k else .queued j (k+1)
  | y => y

/-- The next line is the one in the slot or else the first of the queue. -/
theorem ttyNextLine_cases {v w : TtyState} (h : ttyNextLine v=(some line,w)) :
    (v.line=some line ∧ w={v with line := none}) ∨
      (v.line=none ∧ ∃ rest,v.inputQueue=line::rest ∧ w={v with inputQueue := rest}) := by
  unfold ttyNextLine at h
  split at h
  · rename_i hl
    injection h with h hw
    injection h with h
    exact .inl ⟨by rw [←h,hl],hw.symm⟩
  · rename_i hl
    split at h
    · cases h
    · rename_i rest hq
      injection h with h hw
      injection h with h
      exact .inr ⟨hl,rest,by rw [←h,hq],hw.symm⟩

/-- A reader without a line keeps none. -/
theorem linesWithout_handed {v : TtyState} (hr : (s.tty s.currentProcess).readLine=none)
    (c : PcbPtr) : linesWithout s s.kernelContext i v (.handed c)=held s (.handed c) := by
  dsimp only [linesWithout,held,lineAt]
  by_cases he : c=s.currentProcess
  · rw [he,Function.update_self,hr]
  · rw [Function.update_of_ne he]

/-- A read of the line in the slot. -/
theorem linesOk_takeSlot (h : LinesOk s) (hr : (s.tty s.currentProcess).readLine=none)
    (hl : (s.terminals i).line=some line) :
    LinesOk (ttyTakeBytes i line {s.terminals i with line := none} s) := by
  have hx : held s (.slot i)=some (some i,line) := by
    dsimp only [held,lineAt]
    rw [hl]
    rfl
  have hself : linesWithout s s.kernelContext i {s.terminals i with line := none} (.slot i)=
      none := by
    dsimp only [linesWithout,lineAt]
    rw [Function.update_self]
    rfl
  have hsame : ∀ y,y≠.slot i → linesWithout s s.kernelContext i
      {s.terminals i with line := none} y=held s y := by
    intro y hy
    cases y with
    | slot j =>
      have hne : j≠i := fun he => hy (by rw [he])
      dsimp only [linesWithout,held,lineAt]
      rw [Function.update_of_ne hne]
    | queued j m =>
      dsimp only [linesWithout,held,lineAt]
      by_cases hj : j=i
      · rw [hj,Function.update_self]
      · rw [Function.update_of_ne hj]
    | handed c => exact linesWithout_handed hr c
  refine h.take id hx (fun y hy w hw => (hsame y hy).trans hw) (fun y w hw => ?_) (.inr rfl)
  have hy : y≠.slot i := by
    rintro rfl
    rw [hself] at hw
    cases hw
  exact ⟨y,hy,(hsame y hy).symm.trans hw,rfl⟩

/-- A read of the first queued line. -/
theorem linesOk_takeQueued {rest : List TtyLine} (h : LinesOk s)
    (hr : (s.tty s.currentProcess).readLine=none) (hl : (s.terminals i).line=none)
    (hq : (s.terminals i).inputQueue=line::rest) :
    LinesOk (ttyTakeBytes i line {s.terminals i with inputQueue := rest} s) := by
  have hx : held s (.queued i 0)=some (some i,line) := by
    dsimp only [held,lineAt]
    rw [hq]
    rfl
  have hqueue : ∀ m,linesWithout s s.kernelContext i {s.terminals i with inputQueue := rest}
      (.queued i m)=held s (.queued i (m+1)) := by
    intro m
    dsimp only [linesWithout,held,lineAt]
    rw [Function.update_self,hq]
    rfl
  have hother : ∀ j m,j≠i → linesWithout s s.kernelContext i
      {s.terminals i with inputQueue := rest} (.queued j m)=held s (.queued j m) := by
    intro j m hj
    dsimp only [linesWithout,held,lineAt]
    rw [Function.update_of_ne hj]
  have hslot : ∀ j,linesWithout s s.kernelContext i {s.terminals i with inputQueue := rest}
      (.slot j)=held s (.slot j) := by
    intro j
    dsimp only [linesWithout,held,lineAt]
    by_cases hj : j=i
    · rw [hj,Function.update_self]
    · rw [Function.update_of_ne hj]
  refine h.take (unshift i) hx (fun y hy w hw => ?_) (fun y w hw => ?_) (.inr hl)
  · cases y with
    | slot j => exact (hslot j).trans hw
    | handed c => exact (linesWithout_handed hr c).trans hw
    | queued j m =>
      cases m with
      | zero => exact (hother j 0 (by rintro rfl; exact hy rfl)).trans hw
      | succ m =>
        dsimp only [unshift]
        by_cases hj : j=i
        · subst hj
          rw [if_pos rfl]
          exact (hqueue m).trans hw
        · rw [if_neg hj]
          exact (hother j (m+1) hj).trans hw
  · cases y with
    | slot j => exact ⟨.slot j,by simp,(hslot j).symm.trans hw,rfl⟩
    | handed c => exact ⟨.handed c,by simp,(linesWithout_handed hr c).symm.trans hw,rfl⟩
    | queued j m =>
      by_cases hj : j=i
      · subst hj
        exact ⟨.queued j (m+1),by simp,(hqueue m).symm.trans hw,if_pos rfl⟩
      · refine ⟨.queued j m,by simp [hj],(hother j m hj).symm.trans hw,?_⟩
        cases m with
        | zero => rfl
        | succ m => exact if_neg hj

/-- A line is handed to the first blocked reader. -/
theorem linesOk_deliver (hc : Coherent M s) (h : LinesOk s) {rest : List PcbPtr}
    (hl : line.stamp=s.stamp ∧ line.pos=0) (hq : s.queue (.readQueue i)=p::rest) :
    Ledger (lineAt s.live s.kernelContext
      (Function.update s.tty p {s.tty p with readLine := some line}) s.terminals) (s.stamp+1)
      (s.log++[.ttyReceived i line.stamp line.len line.data]) := by
  have hmem : p∈s.queue (.readQueue i) := by rw [hq]; simp
  have hlive : s.live p=true := hc.block.queue_live _ _ hmem
  have hk := hc.reader.reading i p hmem
  have hnone := no_line_stopped hc hlive (.inl (hc.block.reasons.blocked p (.queue _) hlive hmem))
  refine Ledger.arrive h (x := .handed p) hl ?_ ?_ (fun y hy => ?_)
  · dsimp only [held,lineAt]
    rw [hnone]
    simp
  · dsimp only [lineAt]
    rw [if_pos hlive,Function.update_self,hk]
    rfl
  · cases y with
    | slot j => rfl
    | queued j m => rfl
    | handed c =>
      have hne : c≠p := fun he => hy (by rw [he])
      dsimp only [held,lineAt]
      rw [Function.update_of_ne hne]

/-- A line that is queued is the newest one of its terminal. -/
theorem linesOk_enqueue (h : LinesOk s) (hl : line.stamp=s.stamp ∧ line.pos=0) :
    LinesOk (enqueueLine i line s) := by
  refine Ledger.arrive h (x := .queued i (s.terminals i).inputQueue.length) hl ?_ ?_
    (fun y hy => ?_)
  · dsimp only [held,lineAt]
    simp
  · dsimp only [held,lineAt,enqueueLine]
    rw [Function.update_self]
    simp
  · cases y with
    | slot j =>
      dsimp only [held,lineAt,enqueueLine]
      by_cases hj : j=i
      · rw [hj,Function.update_self]
      · rw [Function.update_of_ne hj]
    | queued j m =>
      dsimp only [held,lineAt,enqueueLine]
      by_cases hj : j=i
      · subst hj
        have hm : m≠(s.terminals j).inputQueue.length := fun he => hy (by rw [he])
        rw [Function.update_self]
        congr 1
        rcases Nat.lt_or_gt_of_ne hm with hm|hm
        · exact List.getElem?_append_left hm
        · rw [List.getElem?_eq_none (by simp; omega),List.getElem?_eq_none (by omega)]
      · rw [Function.update_of_ne hj]
    | handed c => rfl

/-- The child of a fork has no line. -/
theorem lineAt_child {c : PcbPtr} (hl : s.live c=false) (k : KernelContext) (a : Bool) (x : Spot) :
    lineAt (Function.update s.live c a) (Function.update s.kernelContext c k)
      (Function.update s.tty c zeroRequest) s.terminals x=held s x := by
  rw [lineAt_live (by rw [Function.update_self]; rfl),
    lineAt_saved (by rw [Function.update_self]; rfl),lineAt_dead hl]

/-- A terminal has neither a partly read nor a queued line. -/
def NoInput (s : Kernel) (i : ℕ) : Prop :=
  held s (.slot i)=none ∧ ∀ k,held s (.queued i k)=none

/-- No line moves, nothing happens to terminal input, and readers queue only
where there is none. -/
structure Still (s t : Kernel) : Prop where
  /-- Every place holds the line it has held. -/
  lines : ∀ x,held t x=held s x
  /-- Stamps are not taken back. -/
  stamp : s.stamp≤t.stamp
  /-- Only events without bytes are recorded. -/
  log : ∃ l,t.log=s.log++l ∧ ∀ e∈l,Mute e
  /-- A reader queues only where no input is left. -/
  readers : ∀ i,t.queue (.readQueue i)≠[] → s.queue (.readQueue i)≠[] ∨ NoInput s i

/-- One such change after the other. -/
theorem Still.trans {w : Kernel} (h : Still s t) (h' : Still t w) : Still s w := by
  obtain ⟨l,hl,hm⟩ := h.log
  obtain ⟨l',hl',hm'⟩ := h'.log
  refine ⟨fun x => (h'.lines x).trans (h.lines x),h.stamp.trans h'.stamp,
    ⟨l++l',by rw [hl',hl,List.append_assoc],fun e he => ?_⟩,fun i hq => ?_⟩
  · rcases List.mem_append.1 he with he|he
    · exact hm e he
    · exact hm' e he
  · rcases h'.readers i hq with hq|⟨hn,hk⟩
    · exact h.readers i hq
    · exact .inr ⟨(h.lines _).symm.trans hn,fun k => (h.lines _).symm.trans (hk k)⟩

/-- A change that keeps the queues of readers. -/
theorem still_of {l : List Event} (hx : ∀ x,held t x=held s x) (hs : s.stamp≤t.stamp)
    (hl : t.log=s.log++l) (hm : ∀ e∈l,Mute e)
    (hq : ∀ i,t.queue (.readQueue i)=s.queue (.readQueue i)) : Still s t :=
  ⟨hx,hs,⟨l,hl,hm⟩,fun i hne => .inl (by rwa [hq] at hne)⟩

/-- A change of another queue adds no reader. -/
theorem readers_kept {q : QueueAddr} {l : List PcbPtr} (hq : ∀ i,QueueAddr.readQueue i≠q)
    (ht : t.queue=Function.update s.queue q l) (i : ℕ) :
    t.queue (.readQueue i)=s.queue (.readQueue i) := by
  rw [ht]
  exact Function.update_of_ne (hq i) ..

/-- A change that records nothing. -/
theorem still_silent (hx : ∀ x,held t x=held s x) (hs : s.stamp≤t.stamp) (hl : t.log=s.log)
    (hq : ∀ i,t.queue (.readQueue i)=s.queue (.readQueue i)) : Still s t :=
  still_of hx hs (hl.trans (List.append_nil _).symm) (fun _ he => absurd he List.not_mem_nil) hq

/-- Still lines agree with their history as before. -/
theorem Still.linesOk (h : Still s t) (hs : LinesOk s) : LinesOk t := by
  obtain ⟨l,hl,hm⟩ := h.log
  unfold LinesOk
  rw [hl]
  exact ((Ledger.keep hs h.lines).later h.stamp).mute hm

/-- A process is made ready. -/
theorem markReady_still (s : Kernel) (p : PcbPtr) : Still s (markReady s p) :=
  still_of (l := [_]) (fun _ => rfl) le_rfl rfl (by simp [Mute]) (fun _ => rfl)

/-- A chunk that is transmitted moves no line. -/
theorem transmit_still (s : Kernel) : Still s (ttyTransmit M i s) := by
  refine still_of (l := [_]) (fun x => ?_) le_rfl rfl (by simp [Mute]) (fun _ => rfl)
  have ht : held (ttyTransmit M i s) x=
      lineAt s.live s.kernelContext (ttyTransmit M i s).tty s.terminals x :=
    lineAt_terminal (i := i) (v := {s.terminals i with busy := true}) rfl rfl x
  exact ht.trans (lineAt_tty (ttyTransmit_readLine i) x)

/-- A chunk that has completed moves no line. -/
theorem done_still (s : Kernel) : Still s (transmitDone i s) :=
  still_of (l := [_]) (lineAt_terminal rfl rfl) le_rfl rfl (by simp [Mute]) (fun _ => rfl)

/-- The next writer has its turn. -/
theorem nextWriter_still {w : PcbPtr} {rest : List PcbPtr} (s : Kernel) :
    Still s (nextWriter i w rest s) :=
  still_of (l := [_]) (lineAt_terminal rfl rfl) le_rfl rfl (by simp [Mute])
    (readers_kept (q := .writeQueue i) (by simp) rfl)

/-- A terminal writer is noted. -/
theorem prepare_still (env : Env) (k : KernelContext) (i buf : ℕ) (len : ℤ) (u : UserContext)
    (hn : (s.tty s.currentProcess).readLine=none) : Still s (prepareWrite env k i buf len u s) := by
  refine still_of (l := [_,_]) (fun x => ?_) le_rfl rfl (by simp [Mute]) (fun _ => rfl)
  have hk : held (prepareWrite env k i buf len u s) x=
      lineAt s.live (prepareWrite env k i buf len u s).kernelContext s.tty s.terminals x := by
    refine lineAt_request ?_ x
    rfl
  exact hk.trans (lineAt_saved hn x)

/-- A writer that is released moves no line. -/
theorem release_still (u : UserContext) (s : Kernel) : Still s (releaseWriter i u s) := by
  have hdone : Still s {s with
      terminals := Function.update s.terminals i {s.terminals i with busy := false, writer := 0}
      userContext := Function.update s.userContext (s.terminals i).writer u
      log := s.log++[.ttyCompleted i,.woken (s.terminals i).writer (.written i)]} :=
    still_of (l := [_,_]) (lineAt_terminal rfl rfl) le_rfl rfl (by simp [Mute]) (fun _ => rfl)
  exact hdone.trans (markReady_still _ _)

/-- The operations that move lines. -/
inductive LineOp (allow : Label → Prop) (s : Kernel) : Kernel → Prop
  /-- A read of a handed line. -/
  | takeHanded (i : ℕ) (line : TtyLine)
      (hk : (s.kernelContext s.currentProcess).point=.ttyRead i)
      (hl : (s.tty s.currentProcess).readLine=some line)
      (ho : allow (.handed line (s.tty s.currentProcess).readLen (s.terminals i).line
        (s.queue (.readQueue i)))) :
      LineOp allow s (ttyTakeBytes i line (s.terminals i)
        (s.setKernelContext s.currentProcess ⟨s.currentProcess,.executing⟩))
  /-- A read of the next line. -/
  | takeLine (i : ℕ) (line : TtyLine) (v : TtyState) (ha : Active s)
      (hn : ttyNextLine (s.terminals i)=(some line,v)) :
      LineOp allow s (ttyTakeBytes i line v s)
  /-- A line is handed to the first reader. -/
  | deliver (i : ℕ) (line : TtyLine) (r : PcbPtr) (rest : List PcbPtr)
      (hl : line.stamp=s.stamp ∧ line.pos=0) (hq : s.queue (.readQueue i)=r::rest) :
      LineOp allow s (markReady {s with
        queue := Function.update s.queue (.readQueue i) rest
        blockQueue := Function.update s.blockQueue r none
        tty := Function.update s.tty r {s.tty r with readLine := some line}
        stamp := s.stamp+1
        log := s.log++[.ttyReceived i line.stamp line.len line.data,
          .woken r (.pop (.readQueue i))]} r)
  /-- A line is queued. -/
  | enqueue (i : ℕ) (line : TtyLine) (hl : line.stamp=s.stamp ∧ line.pos=0)
      (hq : s.queue (.readQueue i)=[]) : LineOp allow s (enqueueLine i line s)

/-- A child that is destroyed before it has run takes no line with it. -/
theorem undone_still {env : Env} {n : ℤ} {pfns : ℕ → ℕ} {pt : PageTable} {m : Memory}
    {u : UserContext} {c : PcbPtr} (hc : Coherent M s) (hcp : callocPcb env s=some c) :
    Still s (processDestroy M c
      ((enterChild M s.currentProcess c n pfns pt m s).setUserContext c u)) := by
  obtain ⟨h0,hl⟩ := callocPcb_fresh hcp
  rw [destroyed_child hc h0 hl]
  refine still_silent (fun x => ?_) (Nat.le_succ _) rfl (fun _ => rfl)
  dsimp only [held,releaseProcess,Kernel.setUserContext,enterChild]
  rw [Function.update_idem]
  exact lineAt_child hl _ _ x

/-- A new child has no line. -/
theorem spawn_still {env : Env} {caller c : PcbPtr} {n : ℤ} {pfns : ℕ → ℕ} {pt : PageTable}
    {m : Memory} {u : UserContext} (hcp : callocPcb env s=some c) :
    Still s (Operations.markReady ((kcCopy M c ⟨caller,.fork c⟩
      ((enterChild M s.currentProcess c n pfns pt m s).setUserContext c u)).emit
        (.forked (s.birth s.currentProcess) s.stamp n)) c) := by
  obtain ⟨h0,hl⟩ := callocPcb_fresh hcp
  rw [spawn_eq]
  exact still_of (l := [_,_]) (lineAt_child hl ⟨caller,.fork c⟩ true) (Nat.le_succ _)
    (List.append_assoc ..) (by simp [Mute]) (fun _ => rfl)

/-- A lock that is handed on moves no line. -/
theorem handOff_still (l : LockState) (w : PcbPtr) (rest : List PcbPtr) (u : UserContext) :
    Still s (grantLock i l w (Operations.markReady {clearOwner i l s with
      queue := Function.update s.queue (.lockWaiters i) rest
      blockQueue := Function.update s.blockQueue w none
      userContext := Function.update s.userContext w u
      log := s.log++[.lockReleased l.opened l.owner,.woken w (.pop (.lockWaiters i))]} w)) := by
  have hm : Still s {clearOwner i l s with
      queue := Function.update s.queue (.lockWaiters i) rest
      blockQueue := Function.update s.blockQueue w none
      userContext := Function.update s.userContext w u
      log := s.log++[.lockReleased l.opened l.owner,.woken w (.pop (.lockWaiters i))]} :=
    still_of (l := [_,_]) (fun _ => rfl) le_rfl rfl (by simp [Mute])
      (readers_kept (q := .lockWaiters i) (by simp) rfl)
  refine (hm.trans (markReady_still _ w)).trans ?_
  exact still_of (l := [_]) (fun _ => rfl) le_rfl rfl (by simp [Mute]) (fun _ => rfl)

/-- A reported child holds no line. -/
theorem collect_still {statusPtr : ℕ} {c : PcbPtr} (hc : Coherent M s) (ha : Active s)
    (hch : c∈s.children s.currentProcess) (hz : s.state c=.zombie) :
    Still s (collectChild M statusPtr c s) := by
  obtain ⟨hl,_⟩ := hc.family.child_parent _ c hc.ready.current_live hch
  have hn := no_line_stopped hc hl (.inr hz)
  rw [collectChild_eq hc ha statusPtr hch hz]
  refine still_of (lineAt_live hn) le_rfl (List.append_assoc ..) ?_ (fun _ => rfl)
  split <;> simp [Mute]

/-- A reader blocks only where no line is left. -/
theorem blockRead_still {k : KernelContext} {u : UserContext}
    (hr : (s.tty s.currentProcess).readLine=none) (hl : (s.terminals i).line=none)
    (hi : (s.terminals i).inputQueue=[]) : Still s (blockCurrent (.readQueue i) k u s) := by
  refine ⟨lineAt_saved hr,le_rfl,
    ⟨[],(List.append_nil _).symm,fun _ he => absurd he List.not_mem_nil⟩,fun j hq => ?_⟩
  by_cases hj : j=i
  · subst hj
    refine .inr ⟨?_,fun k => ?_⟩
    · dsimp only [held,lineAt]
      rw [hl]
      rfl
    · dsimp only [held,lineAt]
      rw [hi]
      rfl
  · have hkept : (blockCurrent (.readQueue i) k u s).queue (.readQueue j)=
        s.queue (.readQueue j) := Function.update_of_ne (by simpa using hj) ..
    rw [hkept] at hq
    exact .inl hq

/-- A process of a pipe or a condition variable is woken and moves no line. -/
theorem wake_still {q : QueueAddr} (w : PcbPtr) (rest : List PcbPtr) (u : UserContext)
    (hn : (∃ j,q=.readers j) ∨ ∃ j,q=.cvarWaiters j) :
    Still s (Operations.markReady {s with
      queue := Function.update s.queue q rest
      blockQueue := Function.update s.blockQueue w none
      userContext := Function.update s.userContext w u
      log := s.log++[.woken w (.pop q)]} w) := by
  have hpop : Still s {s with
      queue := Function.update s.queue q rest
      blockQueue := Function.update s.blockQueue w none
      userContext := Function.update s.userContext w u
      log := s.log++[.woken w (.pop q)]} := by
    refine still_of (l := [_]) (fun _ => rfl) le_rfl rfl (by simp [Mute])
      (readers_kept (q := q) (fun i => ?_) rfl)
    rcases hn with ⟨j,rfl⟩|⟨j,rfl⟩
    · simp
    · simp
  exact hpop.trans (markReady_still _ _)

/-- The other operations leave the lines alone. -/
theorem op_still {b : Bool} (hc : Coherent M s) (hop : Op M allow b s t) :
    Still s t ∨ LineOp allow s t := by
  cases hop with
  | takeHanded i line hk hl ho => exact .inr (.takeHanded i line hk hl ho)
  | takeLine i line v ha hn => exact .inr (.takeLine i line v ha hn)
  | deliver i line r rest hl hq => exact .inr (.deliver i line r rest hl hq)
  | enqueue i line hl hq => exact .inr (.enqueue i line hl hq)
  | note e hn =>
    refine .inl (still_of (l := [e]) (fun _ => rfl) le_rfl rfl (fun e' he => ?_) (fun _ => rfl))
    rw [List.mem_singleton.1 he]
    cases e <;> trivial
  | tick =>
    exact .inl (still_of (l := [_]) (fun _ => rfl) le_rfl rfl (by simp [Mute]) (fun _ => rfl))
  | begin hr hl hn =>
    exact .inl (still_silent (lineAt_saved hn) le_rfl rfl (fun _ => rfl))
  | preempt ha =>
    have hn := no_line hc ha
    exact .inl (still_silent (lineAt_saved hn) le_rfl rfl (fun _ => rfl))
  | readRequest i buf len =>
    exact .inl (still_silent (lineAt_request rfl) le_rfl rfl (fun _ => rfl))
  | writeDone i len hr hk =>
    have hn := no_handed hc (by simp [hk])
    have hresume : Still s (s.setKernelContext s.currentProcess ⟨s.currentProcess,.executing⟩) :=
      still_silent (lineAt_saved hn) le_rfl rfl (fun _ => rfl)
    refine .inl (hresume.trans ?_)
    exact still_of (l := [_]) (lineAt_request rfl) le_rfl rfl (by simp [Mute]) (fun _ => rfl)
  | sleepOver p hl hd =>
    have hwoken : Still s {s with
        delayUntil := Function.update s.delayUntil p 0
        log := s.log++[.woken p (.delay (s.delayUntil p) s.clockTicks)]} :=
      still_of (l := [_]) (fun _ => rfl) le_rfl rfl (by simp [Mute]) (fun _ => rfl)
    exact .inl (hwoken.trans (markReady_still _ _))
  | requeue hi hs => exact .inl (markReady_still _ _)
  | dispatch env hs =>
    have he := dispatchNext_eq hc hs
    rw [he]
    exact .inl (still_of (l := [_]) (fun _ => rfl) le_rfl rfl (by simp [Mute]) (fun _ => rfl))
  | forkUndone env c pfns pt m₁ m u ha hcp => exact .inl (undone_still hc hcp)
  | spawn env caller c pfns pt m₁ m u hb hcp => exact .inl (spawn_still hcp)
  | unlock i l =>
    exact .inl (still_of (l := [_]) (fun _ => rfl) le_rfl rfl (by simp [Mute]) (fun _ => rfl))
  | handOff i l w rest u => exact .inl (handOff_still l w rest u)
  | zombie status k env m v hk hb =>
    have hn := no_line hc hb.toActive
    exact .inl (still_of (l := [_]) (lineAt_saved hn) le_rfl rfl (by simp [Mute]) (fun _ => rfl))
  | zombieWake status k env m v hk hb =>
    have hn := no_line hc hb.toActive
    refine .inl (Still.trans ?_ (markReady_still _ _))
    exact still_of (l := [_,_]) (lineAt_saved hn) le_rfl rfl (by simp [Mute]) (fun _ => rfl)
  | collect statusPtr c ha hch hz => exact .inl (collect_still hc ha hch hz)
  | blockDelay ticks k u hk hb =>
    have hn := no_line hc hb.toActive
    exact .inl (still_silent (lineAt_saved hn) le_rfl rfl (fun _ => rfl))
  | blockChild statusPtr k u hk hb =>
    have hn := no_line hc hb.toActive
    exact .inl (still_silent (lineAt_saved hn) le_rfl rfl (fun _ => rfl))
  | blockPipe id buf len pipe k u hk hb =>
    have hn := no_line hc hb.toActive
    exact .inl (still_silent (lineAt_saved hn) le_rfl rfl
      (readers_kept (q := .readers id.toNat) (by simp) rfl))
  | blockLock id l k u hk hb =>
    have hn := no_line hc hb.toActive
    exact .inl (still_of (l := [_]) (lineAt_saved hn) le_rfl rfl (by simp [Mute])
      (readers_kept (q := .lockWaiters id.toNat) (by simp) rfl))
  | blockCvar id lockId cvar lockOpened k u hk hb =>
    have hn := no_line hc hb.toActive
    exact .inl (still_of (l := [_]) (lineAt_saved hn) le_rfl rfl (by simp [Mute])
      (readers_kept (q := .cvarWaiters id.toNat) (by simp) rfl))
  | blockRead i k u hk hb ht hr hl hi => exact .inl (blockRead_still hr hl hi)
  | startWrite env i buf len k u hk hb =>
    have hp := prepare_still env k i buf len u (no_line hc hb.toActive)
    have hw : Still (prepareWrite env k i buf len u s)
        (becomeWriter i (prepareWrite env k i buf len u s)) :=
      still_silent (lineAt_terminal rfl rfl) le_rfl rfl (fun _ => rfl)
    exact .inl ((hp.trans hw).trans (transmit_still _))
  | queueWrite env i buf len k u hk hb =>
    have hp := prepare_still env k i buf len u (no_line hc hb.toActive)
    exact .inl (hp.trans (still_silent (fun _ => rfl) le_rfl rfl
      (readers_kept (q := .writeQueue i) (by simp) rfl)))
  | wake q w rest u hn hq => exact .inl (wake_still w rest u hn)
  | openPipe env i =>
    exact .inl (still_silent (fun _ => rfl) (Nat.le_succ _) rfl
      (readers_kept (q := .readers i) (by simp) rfl))
  | openLock i =>
    exact .inl (still_silent (fun _ => rfl) (Nat.le_succ _) rfl
      (readers_kept (q := .lockWaiters i) (by simp) rfl))
  | openCvar i =>
    exact .inl (still_silent (fun _ => rfl) (Nat.le_succ _) rfl
      (readers_kept (q := .cvarWaiters i) (by simp) rfl))
  | takeBytes i pipe len =>
    exact .inl (still_of (l := [_]) (fun _ => rfl) le_rfl rfl (by simp [Mute]) (fun _ => rfl))
  | putBytes env i pipe grown buf len =>
    exact .inl (still_of (l := [_]) (fun _ => rfl) le_rfl rfl (by simp [Mute]) (fun _ => rfl))
  | lockTake i l =>
    exact .inl (still_of (l := [_]) (fun _ => rfl) le_rfl rfl (by simp [Mute]) (fun _ => rfl))
  | lockResume id l hr hk =>
    have hn := no_handed hc (by simp [hk])
    exact .inl (still_of (l := [_]) (lineAt_saved hn) le_rfl rfl (by simp [Mute]) (fun _ => rfl))
  | transmitSpurious i => exact .inl (done_still s)
  | transmitMore i => exact .inl ((done_still s).trans (transmit_still _))
  | transmitLast i u => exact .inl (release_still u s)
  | transmitNext i u w rest =>
    exact .inl (((release_still u s).trans (nextWriter_still _)).trans (transmit_still _))
  | _ => exact .inl (still_silent (fun _ => rfl) le_rfl rfl (fun _ => rfl))

/-- Every operation that does not overwrite a slot keeps the lines and the
history in agreement. -/
theorem op_linesOk {b : Bool} (hallow : ∀ x,allow x → Fits x) (hc : Coherent M s) (h : LinesOk s)
    (hop : Op M allow b s t) : LinesOk t := by
  rcases op_still hc hop with hs|hl
  · exact hs.linesOk h
  · cases hl with
    | takeHanded i line hk hl ho => exact linesOk_takeHanded hc h hk hl (hallow _ ho)
    | takeLine i line v ha hn =>
      have hr := no_line hc ha
      rcases ttyNextLine_cases hn with ⟨hl,rfl⟩|⟨hl,rest,hq,rfl⟩
      · exact linesOk_takeSlot h hr hl
      · exact linesOk_takeQueued h hr hl hq
    | deliver i line r rest hl hq =>
      have hd := linesOk_deliver hc h hl hq
      refine (markReady_still _ r).linesOk ?_
      unfold LinesOk
      dsimp only
      rw [List.append_cons]
      exact hd.mute (by simp [Mute])
    | enqueue i line hl hq => exact linesOk_enqueue h hl

/-- No line is held behind the boot. -/
theorem booted_lines {B : Boot M} {p q : PcbPtr} {pfn : ℕ} {pfns : ℕ → ℕ} {m₁ m₂ m : Memory}
    {v : UserSpace} {u : UserContext} (x : Spot) :
    held (bootedKernel M B p q pfn pfns m₁ m₂ m v u) x=none := by
  cases x with
  | slot i => rfl
  | queued i k => rfl
  | handed c =>
    dsimp only [held,lineAt]
    split
    · rfl
    · rfl

/-- A reader resumes with a handed line, asks for less than is unread, and the
slot of its terminal is taken. -/
def Overwrites (s : Kernel) : Input → Prop
  | .trap _ => False
  | .resume => ∃ i line,(s.kernelContext s.currentProcess).point=.ttyRead i ∧
      (s.tty s.currentProcess).readLine=some line ∧
      (s.tty s.currentProcess).readLen<line.len-line.pos ∧ (s.terminals i).line≠none

/-- Every byte of an accepted line has been returned once and is unread
nowhere, or has not been returned and is unread in one place, with its line. -/
def Conserved (s : Kernel) : Prop :=
  ∀ i n len data j,Event.ttyReceived i n len data∈s.log → j<len →
    ((timesReturned s.log (n,j)=1 ∧ ∀ x,¬UnreadAt (held s) x (n,j)) ∨
      (timesReturned s.log (n,j)=0 ∧ ∃! x,UnreadAt (held s) x (n,j))) ∧
    ∀ x t line,held s x=some (t,line) → line.stamp=n → t=some i ∧ line.len=len ∧ line.data=data

/-- Lines in agreement with the history are conserved. -/
theorem LinesOk.conserved (h : LinesOk s) : Conserved s := by
  intro i n len data j hr hj
  have ha : Accepted s.log (n,j) := ⟨i,len,data,hr,hj⟩
  refine ⟨?_,fun x t line hx hs => ?_⟩
  · by_cases hz : timesReturned s.log (n,j)=0
    · exact .inr ⟨hz,h.placed.existsUnique ⟨ha,hz⟩⟩
    · have hone := h.once (n,j)
      exact .inl ⟨by omega,h.placed.nowhere (fun hm => hz hm.2)⟩
  · obtain ⟨i',ht,hr'⟩ := h.source x t line hx
    rw [hs] at hr'
    obtain ⟨hi,hlen,hdata⟩ := h.line n _ _ _ _ _ _ hr hr'
    exact ⟨by rw [ht,hi],hlen.symm,hdata.symm⟩

/-- In every run in which no reader overwrites the slot of its terminal the
lines agree with the history. -/
theorem run_linesOk (h : Run M (fun _ => True)
    (fun s env input => env.switchOk=true ∧ ¬Overwrites s input) s) : Settled M s ∧ LinesOk s := by
  have hok : ∀ s env input,env.switchOk=true ∧ ¬Overwrites s input →
      env.switchOk=true ∧ StepAllowed M Fits s env input := by
    rintro s env input ⟨hsw,hn⟩
    refine ⟨hsw,fun x hx => ?_⟩
    cases hx with
    | handed i line hk hl => exact fun hboth => hn ⟨i,line,hk,hl,hboth.1,hboth.2⟩
    | _ => trivial
  exact run_invariant (P := LinesOk) hok
    (fun b p q pfn pfns m₁ m₂ m v u _ _ => Ledger.empty booted_lines)
    (fun c s t hc hp hop => op_linesOk (fun _ hx => hx) hc hp hop) h

/-- In every run in which no reader overwrites the slot of its terminal, every
accepted byte is in one place, and lines are handed to woken readers only. -/
theorem run_conserved (h : Run M (fun _ => True)
    (fun s env input => env.switchOk=true ∧ ¬Overwrites s input) s) :
    Conserved s ∧ ∀ p,held s (.handed p)≠none → s.live p=true ∧ s.state p≠.blocked := by
  obtain ⟨hset,hl⟩ := run_linesOk h
  refine ⟨hl.conserved,fun p hp => ?_⟩
  dsimp only [held,lineAt] at hp
  by_cases hlive : s.live p=true
  · rw [if_pos hlive] at hp
    cases hr : (s.tty p).readLine with
    | none => rw [hr] at hp; exact absurd rfl hp
    | some line => exact ⟨hlive,(hset.toCoherent.reader.handed p line hlive hr).2.1⟩
  · rw [if_neg hlive] at hp
    exact absurd rfl hp

/-- A test that a step does not overwrite a slot. -/
def fitsTest (s : Kernel) (env : Env) : Input → Bool
  | .trap _ => env.switchOk
  | .resume => env.switchOk &&
      match (s.tty s.currentProcess).readLine,
        readTerminal (s.kernelContext s.currentProcess).point with
      | some _,some i => (s.terminals i).line.isNone
      | _,_ => true

/-- A step that passes the test leaves no rest of a line. -/
theorem fitsTest_sound (s : Kernel) (env : Env) (input : Input) (h : fitsTest s env input=true) :
    env.switchOk=true ∧ ¬Overwrites s input := by
  cases input with
  | trap u => exact ⟨h,fun hn => hn⟩
  | resume =>
    dsimp only [fitsTest] at h
    simp only [Bool.and_eq_true] at h
    refine ⟨h.1,?_⟩
    rintro ⟨i,line,hk,hl,_,hs⟩
    rw [hl,hk] at h
    exact hs (Option.isNone_iff_eq_none.1 h.2)

/-- A reader has taken two bytes of a line of five: the first is returned, the
last is still in one place. -/
theorem run_conserved_reader : ∃ s,Run sampleMachine (fun _ => True)
      (fun s env input => env.switchOk=true ∧ ¬Overwrites s input) s ∧
    timesReturned s.log (2,0)=1 ∧ timesReturned s.log (2,4)=0 ∧ Conserved s := by
  obtain ⟨s,hr,hq⟩ := replay_exists (fun _ => True) fitsTest_sound trivial
    sampleBoot_user [callInput 8 0 0x105001 2,resumeInput,lineInput,tickInput,resumeInput]
    (fun s => timesReturned s.log (2,0)=1 ∧ timesReturned s.log (2,4)=0) (by decide +kernel)
  simp only [decide_eq_true_eq] at hq
  exact ⟨s,hr,hq.1,hq.2,(run_conserved hr).1⟩

/-- Leaving the kernel moves no line and returns no byte. -/
theorem trapKernelReturn_held (caller : PcbPtr) (u : UserContext) (s : Kernel) :
    held (trapKernelReturn caller u s)=held s ∧ (trapKernelReturn caller u s).log=s.log := by
  unfold trapKernelReturn
  split
  · exact ⟨rfl,rfl⟩
  · split
    · exact ⟨rfl,rfl⟩
    · exact ⟨rfl,rfl⟩

/-- A reader resumes with a handed line. -/
theorem resume_handed (env : Env) (hk : (s.kernelContext s.currentProcess).point=.ttyRead i)
    (hl : (s.tty s.currentProcess).readLine=some line) : ∃ c u,
    kernelStep M env s .resume=trapKernelReturn c u (ttyTakeBytes i line (s.terminals i)
      (s.setKernelContext s.currentProcess ⟨s.currentProcess,.executing⟩)) := by
  dsimp only [kernelStep,resume,continueAt]
  rw [hk]
  simp only [ttyReadLoop,Kernel.setKernelContext,hl]
  exact ⟨_,_,rfl⟩

/-- Overwriting the slot loses the bytes that were unread in it. -/
theorem overwriting_loses {slot : TtyLine} (env : Env) (hc : Coherent M s) (h : LinesOk s)
    (hk : (s.kernelContext s.currentProcess).point=.ttyRead i)
    (hl : (s.tty s.currentProcess).readLine=some line)
    (hn : (s.tty s.currentProcess).readLen<line.len-line.pos)
    (hs : (s.terminals i).line=some slot) (hu : Unread slot b) :
    ¬Conserved (kernelStep M env s .resume) := by
  obtain ⟨c,u,he⟩ := resume_handed (M := M) env hk hl
  obtain ⟨hheld,hlog⟩ := trapKernelReturn_held c u (ttyTakeBytes i line (s.terminals i)
    (s.setKernelContext s.currentProcess ⟨s.currentProcess,.executing⟩))
  rw [←he] at hheld hlog
  obtain ⟨rest,hrest⟩ : ∃ rest,lineRest line (lineCount line
      (s.tty s.currentProcess).readLen)=some rest := by
    unfold lineRest lineCount
    rw [if_pos hn,if_pos (by omega)]
    exact ⟨_,rfl⟩
  have hslot : UnreadAt (held s) (.slot i) b := by
    refine ⟨some i,slot,?_,hu⟩
    dsimp only [held,lineAt]
    rw [hs]
    rfl
  have hhand : ∀ {b},Unread line b → UnreadAt (held s) (.handed s.currentProcess) b := by
    intro b hb
    refine ⟨some i,line,?_,hb⟩
    dsimp only [held,lineAt]
    rw [if_pos hc.ready.current_live,hl,hk]
    rfl
  have hnot : ¬Unread line b := by
    intro hb
    cases h.placed.unique b _ _ hslot (hhand hb)
  have hzero : timesReturned (kernelStep M env s .resume).log b=0 := by
    rw [hlog]
    refine List.countP_eq_zero.2 (fun e he => ?_)
    rcases List.mem_append.1 he with he|he
    · exact List.countP_eq_zero.1 ((h.placed.held b).2 ⟨_,hslot⟩).2 e he
    · simp only [List.mem_cons,List.not_mem_nil,or_false] at he
      rcases he with rfl|rfl
      · exact Bool.false_ne_true
      · intro hr
        simp only [returnsByte,decide_eq_true_eq] at hr
        exact hnot (taken_unread hr)
  intro hcons
  obtain ⟨i',hi,hrec⟩ := h.source (.slot i) (some i) slot
    (by dsimp only [held,lineAt]; rw [hs]; rfl)
  have hrec' : Event.ttyReceived i' b.1 slot.len slot.data∈(kernelStep M env s .resume).log := by
    rw [hlog,←hu.1]
    exact List.mem_append_left _ hrec
  rcases (hcons i' b.1 slot.len slot.data b.2 hrec' hu.2.2).1 with ⟨hone,_⟩|⟨_,x,⟨t',line',hx,hb⟩,_⟩
  · rw [hzero] at hone
    cases hone
  · have hold : ∀ {y},y≠.slot i → ¬held s y=some (t',line') :=
      fun hy hline => hy (h.placed.unique b _ _ ⟨t',line',hline,hb⟩ hslot)
    rw [hheld] at hx
    dsimp only [held,ttyTakeBytes,Kernel.setKernelContext] at hx
    rw [hrest] at hx
    cases x with
    | slot j =>
      dsimp only [lineAt] at hx
      by_cases hj : j=i
      · rw [hj,Function.update_self] at hx
        injection hx with hx
        injection hx with _ hx
        rw [←hx] at hb
        exact hnot (rest_unread hrest hb).1
      · rw [Function.update_of_ne hj] at hx
        exact hold (by simpa using hj) (show held s (.slot j)=_ from hx)
    | queued j m =>
      dsimp only [lineAt] at hx
      by_cases hj : j=i
      · rw [hj,Function.update_self] at hx
        exact hold (by simp) (show held s (.queued i m)=_ from hx)
      · rw [Function.update_of_ne hj] at hx
        exact hold (by simp) (show held s (.queued j m)=_ from hx)
    | handed c =>
      dsimp only [lineAt] at hx
      by_cases he : c=s.currentProcess
      · rw [he,Function.update_self] at hx
        simp at hx
      · rw [Function.update_of_ne he,Function.update_of_ne he] at hx
        exact hold (by simp) (show held s (.handed c)=_ from hx)

/-- Two readers, two lines, and a rest in the slot: the first reader leaves its
own rest there, and the other one is lost. -/
theorem conserved_fails : ¬∀ (M : Machine) (s : Kernel),Reachable M s → Conserved s := by
  intro hall
  obtain ⟨s,hr,hq⟩ := replay_exists (fun _ => True) fitsTest_sound trivial sampleBoot_user
    [forkInput 3 2,callInput 8 0 0x105001 2,resumeInput,lineInput,lineInput,
      callInput 8 0 0x105001 2,tickInput]
    (fun s => s.cpu=.kernel ∧
      readTerminal (s.kernelContext s.currentProcess).point=some 0 ∧
      (s.tty s.currentProcess).readLen=2 ∧
      (s.tty s.currentProcess).readLine.any (fun line => line.pos=0 ∧ line.len=5)=true ∧
      (s.terminals 0).line.any (fun line => line.stamp=4 ∧ line.pos=2 ∧ line.len=5)=true)
    (by decide +kernel)
  simp only [decide_eq_true_eq,Option.any_eq_true] at hq
  obtain ⟨hcpu,hk,hlen,⟨line,hl,hline⟩,slot,hs,hslot⟩ := hq
  have hk' : (s.kernelContext s.currentProcess).point=.ttyRead 0 := by
    cases hp : (s.kernelContext s.currentProcess).point with
    | ttyRead i =>
      rw [hp] at hk
      injection hk with hk
      rw [hk]
    | _ =>
      rw [hp] at hk
      cases hk
  obtain ⟨hset,hlines⟩ := run_linesOk hr
  have hreach : Reachable sampleMachine s := Run.mono (fun _ h => h) (fun _ _ _ h => h.1) hr
  refine overwriting_loses (sampleEnv 0 0) hset.toCoherent hlines hk' hl (by omega) hs
    (b := (4,3)) ⟨hslot.1,by omega,by omega⟩ ?_
  exact hall _ _ (.step (sampleEnv 0 0) .resume hreach hcpu rfl)

end Yalnix.TerminalInput
