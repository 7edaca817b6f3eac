import Yalnix.History
import Yalnix.Traces

/-!
# Pipes are streams of bytes

Pipes are named by the stamp of their creation. The bytes of the successful
writes are the bytes of the completed reads followed by the buffered ones, as
long as the buffered bytes and the length of a write are together at most
2^30, so that no capacity computation wraps around.
-/

namespace Yalnix.PipeStream

open Framework FrameTable KernelState Scheduling Ipc Terminals ProcessLifetime ProgramLoading
open Syscalls Traps KernelStart Coherence Operations OperationCoherence CallOperations
open RunInvariants History Traces ByteCopy

variable {M : Machine} {allow : Label → Prop} {s t : Kernel} {env : Env}
  {objects : ℕ → IpcObject} {stamp stamp' : ℕ} {log l : List Event} {pipe pipe' : PipeState}
  {g i : ℕ} {e : Event} {needed len : ℤ}

/-- The bytes an event writes to a pipe. -/
def wroteTo (g : ℕ) : Event → List UInt8
  | .pipeWrote opened bytes => if opened=g then bytes else []
  | _ => []

/-- The bytes an event returns from a pipe. -/
def readFrom (g : ℕ) : Event → List UInt8
  | .pipeReturned opened bytes => if opened=g then bytes else []
  | _ => []

/-- The buffered bytes of a pipe. -/
def buffered (pipe : PipeState) : List UInt8 := contents pipe.buf pipe.len.toNat

section Capacity

/-- The doubling loop ends with enough capacity. -/
theorem doubleCapacity_some (hn : needed≤2^30) {n : ℕ} {cap : ℤ} (hc : 0< cap)
    (h : needed≤ cap*2^n) : ∃ c,doubleCapacity needed (n+1) cap=some c ∧ needed≤ c ∧ 0< c := by
  induction n generalizing cap with
  | zero =>
    refine ⟨cap,?_,by omega,hc⟩
    rw [doubleCapacity,if_neg (by omega)]
  | succ n ih =>
    rw [doubleCapacity]
    by_cases hlt : cap<needed
    · have hw : wrap32 (cap*2)=cap*2 := wrap32_eq (by omega) (by omega)
      rw [if_pos hlt,hw]
      refine ih (by omega) ?_
      have he : cap*2^(n+1)=cap*2*2^n := by
        rw [Int.pow_succ,Int.mul_comm (2^n) 2,Int.mul_assoc]
      rwa [he] at h
    · rw [if_neg hlt]
      exact ⟨cap,rfl,by omega,hc⟩

/-- A pipe has room for a write that is not too long. -/
theorem pipeEnsureCapacity_cases (env : Env) (hn : needed≤2^30) (hc : 0<pipe.cap) :
    pipeEnsureCapacity env pipe needed=.error ∨
      ∃ grown,pipeEnsureCapacity env pipe needed=.enough grown ∧ grown.opened=pipe.opened ∧
        grown.len=pipe.len ∧ needed≤grown.cap ∧ 0<grown.cap ∧ buffered grown=buffered pipe := by
  unfold pipeEnsureCapacity
  by_cases hle : needed≤pipe.cap
  · rw [if_pos hle]
    exact .inr ⟨pipe,rfl,rfl,rfl,hle,hc,rfl⟩
  · have h63 : needed≤pipe.cap*2^63 := by omega
    obtain ⟨c,hd,hnc,h0⟩ := doubleCapacity_some hn hc h63
    rw [if_neg hle,hd]
    dsimp only
    by_cases hm : env.malloc 0=true
    · rw [if_pos hm]
      exact .inr ⟨_,rfl,rfl,rfl,hnc,h0,contents_moved _ _ _⟩
    · rw [if_neg hm]
      exact .inl rfl

/-- A grown pipe is the same pipe. -/
theorem ensure_opened {grown : PipeState} (h : pipeEnsureCapacity env pipe needed=.enough grown) :
    grown.opened=pipe.opened := by
  unfold pipeEnsureCapacity at h
  split at h
  · injection h with h
    rw [h]
  · split at h
    · cases h
    · split at h
      · injection h with h
        rw [←h]
      · cases h

end Capacity

/-- The state of a pipe agrees with its history. -/
structure PipeSeen (pipe : PipeState) (log : List Event) : Prop where
  /-- What was written is what was read followed by what is buffered. -/
  stream : InOrder (wroteTo pipe.opened) (readFrom pipe.opened) log (buffered pipe)
  /-- The byte count has not wrapped around. -/
  nonneg : 0≤pipe.len
  /-- The buffered bytes fit. -/
  fits : pipe.len≤pipe.cap
  /-- The capacity can be doubled. -/
  room : 0<pipe.cap

/-- A read takes its bytes from the front. -/
theorem buffered_consume (h0 : 0≤pipe.len) (hl : 0<len) :
    buffered pipe=contents pipe.buf (readCount pipe len).toNat++
      buffered (consumeBytes pipe (readCount pipe len)) := by
  have hle : readCount pipe len≤pipe.len ∧ 0≤ readCount pipe len := by
    unfold readCount
    split <;> omega
  have hsum : pipe.len.toNat=(readCount pipe len).toNat+(pipe.len-readCount pipe len).toNat := by
    omega
  unfold buffered
  rw [hsum,contents_consumed]
  congr 1
  unfold consumeBytes
  dsimp only
  by_cases hpos : 0<pipe.len-readCount pipe len
  · rw [if_pos hpos]
  · have hz : (pipe.len-readCount pipe len).toNat=0 := by omega
    rw [hz]
    rfl

/-- A read takes the first bytes of the pipe. -/
theorem PipeSeen.take (h : PipeSeen pipe log) (hl : 0<len) :
    PipeSeen (consumeBytes pipe (readCount pipe len)) (log++[.pipeReturned pipe.opened
      (contents pipe.buf (readCount pipe len).toNat)]) := by
  have hle : readCount pipe len≤pipe.len ∧ 0≤ readCount pipe len := by
    have := h.nonneg
    unfold readCount
    split <;> omega
  have hs := h.stream
  rw [buffered_consume h.nonneg hl] at hs
  have hfit := h.fits
  refine ⟨hs.pop rfl (by simp [readFrom]),?_,?_,h.room⟩
  · change 0≤pipe.len-readCount pipe len
    omega
  · change pipe.len-readCount pipe len≤pipe.cap
    omega

/-- A write that fits is appended behind the buffered bytes. -/
theorem buffered_append (mem : ℕ → UInt8) (buf : ℕ) (h0 : 0≤pipe.len) (hl : 0<len)
    (hb : pipe.len+len≤2^30) :
    buffered (appendBytes pipe mem buf len)=buffered pipe++segment mem buf len.toNat ∧
      (appendBytes pipe mem buf len).len=pipe.len+len := by
  have hlen : (appendBytes pipe mem buf len).len=pipe.len+len := wrap32_eq (by omega) (by omega)
  refine ⟨?_,hlen⟩
  have hsum : (pipe.len+len).toNat=pipe.len.toNat+len.toNat := by omega
  unfold buffered
  rw [hlen,hsum]
  exact contents_appended mem buf _ _ _

/-- A write appends its bytes to those of the pipe. -/
theorem PipeSeen.put (h : PipeSeen pipe log) {grown : PipeState} {mem : ℕ → UInt8} {buf : ℕ}
    (hl : 0<len) (hb : pipe.len+len≤2^30)
    (hg : pipeEnsureCapacity env pipe (wrap32 (pipe.len+len))=.enough grown) :
    PipeSeen (appendBytes grown mem buf len) (log++[.pipeWrote pipe.opened
      (segment mem buf len.toNat)]) := by
  have h0 := h.nonneg
  have hw : wrap32 (pipe.len+len)=pipe.len+len := wrap32_eq (by omega) (by omega)
  rw [hw] at hg
  rcases pipeEnsureCapacity_cases env hb h.room with he|⟨grown',he,hop,hgl,hcap,hroom,hbuf⟩
  · rw [he] at hg
    cases hg
  · rw [he] at hg
    injection hg with hg
    subst hg
    obtain ⟨happ,hlen⟩ := buffered_append mem buf (by rw [hgl]; exact h0) hl
      (by rw [hgl]; exact hb)
    have hs := h.stream
    rw [←hbuf] at hs
    refine ⟨?_,?_,?_,hroom⟩
    · rw [happ]
      change InOrder (wroteTo grown'.opened) (readFrom grown'.opened) _ _
      rw [hop]
      exact hs.push (by simp [wroteTo]) rfl
    · rw [hlen,hgl]
      omega
    · rw [hlen,hgl]
      exact hcap

/-- Events that say nothing about any pipe. -/
def Dry : Event → Prop
  | .pipeWrote _ _ => False
  | .pipeReturned _ _ => False
  | _ => True

/-- Dry events neither write nor read. -/
theorem dry_nil (g : ℕ) (h : ∀ e∈l,Dry e) :
    l.flatMap (wroteTo g)=[] ∧ l.flatMap (readFrom g)=[] := by
  refine ⟨List.flatMap_eq_nil_iff.2 fun e he => ?_,List.flatMap_eq_nil_iff.2 fun e he => ?_⟩
  · have hq := h e he
    cases e with
    | pipeWrote opened bytes => exact hq.elim
    | _ => rfl
  · have hq := h e he
    cases e with
    | pipeReturned opened bytes => exact hq.elim
    | _ => rfl

/-- The history of a pipe, among the others. -/
structure PipeLogOk (g : ℕ) (objects : ℕ → IpcObject) (stamp : ℕ) (log : List Event) : Prop where
  /-- Creation stamps have been used. -/
  opened : ∀ i pipe,objects i=.pipe pipe → pipe.opened< stamp
  /-- Pipes have different creation stamps. -/
  distinct : ∀ i j pipe pipe',objects i=.pipe pipe → objects j=.pipe pipe' →
    pipe.opened=pipe'.opened → i=j
  /-- A pipe that does not exist yet has no history. -/
  fresh : stamp≤g → log.flatMap (wroteTo g)=[] ∧ log.flatMap (readFrom g)=[]
  /-- The pipe agrees with its history. -/
  seen : ∀ i pipe,objects i=.pipe pipe → pipe.opened=g → PipeSeen pipe log

/-- Events that are not about pipes keep the stream. -/
theorem PipeLogOk.other (h : PipeLogOk g objects stamp log) (hl : ∀ e∈l,Dry e) :
    PipeLogOk g objects stamp (log++l) := by
  obtain ⟨hw,hr⟩ := dry_nil g hl
  refine {h with
    fresh := fun hs => ?_
    seen := fun i pipe ho hp => ?_}
  · rw [List.flatMap_append,List.flatMap_append,hw,hr,List.append_nil,List.append_nil]
    exact h.fresh hs
  · subst hp
    exact {h.seen i pipe ho rfl with stream := (h.seen i pipe ho rfl).stream.other hw hr}

/-- A stamp is used for something else. -/
theorem PipeLogOk.setStamp (h : PipeLogOk g objects stamp log) (hs : stamp≤ stamp') :
    PipeLogOk g objects stamp' log :=
  {h with
    opened := fun i pipe ho => lt_of_lt_of_le (h.opened i pipe ho) hs
    fresh := fun hg => h.fresh (le_trans hs hg)}

/-- An object is replaced by something else than a pipe. -/
theorem PipeLogOk.setObject {o : IpcObject} (h : PipeLogOk g objects stamp log)
    (hn : ∀ pipe,o≠.pipe pipe) : PipeLogOk g (Function.update objects i o) stamp log := by
  have hu : ∀ j pipe,Function.update objects i o j=.pipe pipe → objects j=.pipe pipe := by
    intro j pipe hj
    by_cases he : j=i
    · rw [he,Function.update_self] at hj
      exact absurd hj (hn pipe)
    · rwa [Function.update_of_ne he] at hj
  exact {h with
    opened := fun j pipe hj => h.opened j pipe (hu j pipe hj)
    distinct := fun j j' pipe pipe' hj hj' =>
      h.distinct j j' pipe pipe' (hu j pipe hj) (hu j' pipe' hj')
    seen := fun j pipe hj => h.seen j pipe (hu j pipe hj)}

/-- What the entries are behind the replacement of a pipe. -/
theorem update_pipe {j : ℕ} {pipe₁ : PipeState}
    (h : Function.update objects i (.pipe pipe') j=.pipe pipe₁) :
    (j=i ∧ pipe₁=pipe') ∨ (j≠i ∧ objects j=.pipe pipe₁) := by
  by_cases he : j=i
  · rw [he,Function.update_self] at h
    injection h with h
    exact .inl ⟨he,h.symm⟩
  · rw [Function.update_of_ne he] at h
    exact .inr ⟨he,h⟩

/-- A new pipe has an empty history under its stamp. -/
theorem PipeLogOk.create (h : PipeLogOk g objects stamp log) (hs : pipe'.opened=stamp)
    (hl : pipe'.len=0) (hc : 0<pipe'.cap) :
    PipeLogOk g (Function.update objects i (.pipe pipe')) (stamp+1) log := by
  refine ⟨fun j pipe hj => ?_,fun j j' pipe₁ pipe₂ hj hj' he => ?_,
    fun hg => h.fresh (Nat.le_of_succ_le hg),fun j pipe hj hp => ?_⟩
  · rcases update_pipe hj with ⟨_,hp⟩|⟨_,hj⟩
    · rw [hp,hs]
      exact Nat.lt_succ_self stamp
    · exact Nat.lt_succ_of_lt (h.opened j pipe hj)
  · rcases update_pipe hj with ⟨hji,hp₁⟩|⟨_,hj⟩
    · rcases update_pipe hj' with ⟨hji',_⟩|⟨_,hj'⟩
      · rw [hji,hji']
      · rw [hp₁,hs] at he
        exact absurd he (Nat.ne_of_gt (h.opened j' pipe₂ hj'))
    · rcases update_pipe hj' with ⟨_,hp₂⟩|⟨_,hj'⟩
      · rw [hp₂,hs] at he
        exact absurd he (Nat.ne_of_lt (h.opened j pipe₁ hj))
      · exact h.distinct j j' pipe₁ pipe₂ hj hj' he
  · rcases update_pipe hj with ⟨_,hpp⟩|⟨_,hj⟩
    · subst hpp
      obtain ⟨hw,hr⟩ := h.fresh (by rw [←hp,hs])
      refine ⟨?_,by omega,by omega,hc⟩
      unfold InOrder buffered
      rw [hp,hw,hr,hl]
      rfl
    · exact h.seen j pipe hj hp

/-- A pipe changes with an event of its own. -/
theorem PipeLogOk.change (h : PipeLogOk g objects stamp log) (ho : objects i=.pipe pipe)
    (hn : pipe'.opened=pipe.opened) (hs : pipe.opened=g → PipeSeen pipe' (log++[e]))
    (he : pipe.opened≠g → wroteTo g e=[] ∧ readFrom g e=[]) :
    PipeLogOk g (Function.update objects i (.pipe pipe')) stamp (log++[e]) := by
  refine ⟨fun j pipe₁ hj => ?_,fun j j' pipe₁ pipe₂ hj hj' heq => ?_,fun hg => ?_,
    fun j pipe₁ hj hp => ?_⟩
  · rcases update_pipe hj with ⟨_,hp⟩|⟨_,hj⟩
    · rw [hp,hn]
      exact h.opened i pipe ho
    · exact h.opened j pipe₁ hj
  · rcases update_pipe hj with ⟨hji,hp₁⟩|⟨_,hj⟩
    · rcases update_pipe hj' with ⟨hji',_⟩|⟨_,hj'⟩
      · rw [hji,hji']
      · rw [hp₁,hn] at heq
        rw [hji]
        exact h.distinct i j' pipe pipe₂ ho hj' heq
    · rcases update_pipe hj' with ⟨hji',hp₂⟩|⟨_,hj'⟩
      · rw [hp₂,hn] at heq
        rw [hji']
        exact h.distinct j i pipe₁ pipe hj ho heq
      · exact h.distinct j j' pipe₁ pipe₂ hj hj' heq
  · obtain ⟨hw,hr⟩ := he (Nat.ne_of_lt (lt_of_lt_of_le (h.opened i pipe ho) hg))
    rw [List.flatMap_append,List.flatMap_append,(h.fresh hg).1,(h.fresh hg).2]
    simp [hw,hr]
  · rcases update_pipe hj with ⟨_,hpp⟩|⟨hji,hj⟩
    · rw [hpp]
      rw [hpp,hn] at hp
      exact hs hp
    · have hne : pipe.opened≠g := by
        intro heq
        exact hji (h.distinct j i pipe₁ pipe hj ho (hp.trans heq.symm))
      obtain ⟨hw,hr⟩ := he hne
      subst hp
      have hseen := h.seen j pipe₁ hj rfl
      exact {hseen with stream := hseen.stream.other (by simp [hw]) (by simp [hr])}

/-- The history of a pipe in a state. -/
abbrev PipeLog (g : ℕ) (s : Kernel) : Prop := PipeLogOk g s.objects s.stamp s.log

/-- Every operation keeps the history of a pipe whose writes fit. -/
theorem op_pipeLog {b : Bool} (hallow : ∀ n len,allow (.put g n len) → n+len≤2^30)
    (hc : Coherent M s) (h : PipeLog g s) (hop : Op M allow b s t) : PipeLog g t := by
  cases hop with
  | note e hn =>
    refine h.other (fun e' he => ?_)
    rw [List.mem_singleton.1 he]
    cases e with
    | pipeWrote opened bytes => exact hn.elim
    | pipeReturned opened bytes => exact hn.elim
    | _ => trivial
  | tick => exact h.other (by simp [Dry])
  | writeDone i len => exact h.other (by simp [Dry])
  | sleepOver p hl ho => exact (h.other (l := [_]) (by simp [Dry])).other (by simp [Dry])
  | requeue hi hs => exact h.other (by simp [Dry])
  | dispatch env hs =>
    have he := dispatchNext_eq hc hs
    rw [he]
    exact h.other (by simp [Dry])
  | forkUndone env c pfns pt m₁ m u ha hcp =>
    obtain ⟨h0,hl⟩ := callocPcb_fresh hcp
    rw [destroyed_child hc h0 hl]
    exact h.setStamp (Nat.le_succ s.stamp)
  | spawn env caller c pfns pt m₁ m u hb hcp =>
    rw [spawn_eq]
    exact ((h.setStamp (Nat.le_succ s.stamp)).other (l := [_]) (by simp [Dry])).other
      (by simp [Dry])
  | unlock i l => exact (h.setObject (by simp)).other (by simp [Dry])
  | handOff i l w rest u =>
    exact ((((h.setObject (by simp)).setObject (by simp)).other (l := [_,_])
      (by simp [Dry])).other (l := [_]) (by simp [Dry])).other (by simp [Dry])
  | zombie status k => exact h.other (by simp [Dry])
  | zombieWake status k => exact (h.other (l := [_,_]) (by simp [Dry])).other (by simp [Dry])
  | collect statusPtr c ha hch hz =>
    rw [collectChild_eq hc ha statusPtr hch hz]
    have h₁ := h.other (l := if statusPtr=0 then []
      else [.stored s.currentProcess statusPtr 4]) (by split <;> simp [Dry])
    exact h₁.other (by simp [Dry])
  | blockLock id l k u => exact h.other (by simp [Dry])
  | blockCvar id lockId cvar lockOpened k u => exact h.other (by simp [Dry])
  | startWrite env i buf len k u =>
    exact (h.other (l := [_,_]) (by simp [Dry])).other (by simp [Dry])
  | queueWrite env i buf len k u => exact h.other (by simp [Dry])
  | wake q w rest u => exact (h.other (l := [_]) (by simp [Dry])).other (by simp [Dry])
  | openPipe env i hi hf => exact h.create rfl rfl (Int.natCast_pos.2 M.pipeBufferLen_pos)
  | openLock i hi hf => exact (h.setObject (by simp)).setStamp (Nat.le_succ s.stamp)
  | openCvar i hi hf => exact (h.setObject (by simp)).setStamp (Nat.le_succ s.stamp)
  | takeBytes i pipe len ho hl hp =>
    refine h.change ho rfl (fun hg => (h.seen i pipe ho hg).take hl) (fun hg => ?_)
    simp [wroteTo,readFrom,hg]
  | putBytes env i pipe grown buf len ho hl hr hg hput =>
    have hgrown : grown.opened=pipe.opened := ensure_opened hg
    refine h.change ho hgrown (fun hgo => ?_) (fun hgo => ?_)
    · rw [hgo] at hput
      exact (h.seen i pipe ho hgo).put hl (hallow _ _ hput) hg
    · simp [wroteTo,readFrom,hgo]
  | lockTake i l => exact (h.setObject (by simp)).other (by simp [Dry])
  | lockResume id l => exact h.other (by simp [Dry])
  | reclaim i hu => exact h.setObject (by simp)
  | takeHanded i line => exact h.other (by simp [Dry])
  | takeLine i line v => exact h.other (by simp [Dry])
  | deliver i line r rest =>
    exact ((h.setStamp (Nat.le_succ s.stamp)).other (l := [_,_]) (by simp [Dry])).other
      (by simp [Dry])
  | enqueue i line => exact (h.setStamp (Nat.le_succ s.stamp)).other (by simp [Dry])
  | transmitSpurious i => exact h.other (by simp [Dry])
  | transmitMore i => exact (h.other (l := [_]) (by simp [Dry])).other (by simp [Dry])
  | transmitLast i u => exact (h.other (l := [_,_]) (by simp [Dry])).other (by simp [Dry])
  | transmitNext i u w rest =>
    have h₁ := (h.other (l := [.ttyCompleted i,.woken (s.terminals i).writer (.written i)])
      (by simp [Dry])).other (l := [.linked (s.terminals i).writer]) (by simp [Dry])
    exact (h₁.other (l := [_]) (by simp [Dry])).other (by simp [Dry])
  | _ => exact h

/-- Outcomes of a PipeWrite whose bytes fit: nothing changes, or all bytes are
appended. -/
theorem sysPipeWrite_result {id : ℤ} {buf : ℕ} {u : UserContext} (hs : PipeSeen pipe log)
    (ho : getObject s id=.pipe pipe) (hb : 0<len → pipe.len+len≤2^30) :
    sysPipeWrite env id buf len u s=.returns s u ERROR ∨
      ∃ t pipe',sysPipeWrite env id buf len u s=.returns t u len ∧ 0≤len ∧
        t.objects id.toNat=.pipe pipe' ∧ pipe'.opened=pipe.opened ∧ pipe'.len=pipe.len+len ∧
        buffered pipe'=buffered pipe++segment env.mem buf len.toNat := by
  unfold sysPipeWrite
  split
  · exact .inl rfl
  · rename_i hneg
    split
    · rename_i hz
      refine .inr ⟨s,pipe,by rw [hz],by omega,objects_of_getObject ho (by simp),rfl,by omega,?_⟩
      rw [hz]
      exact (List.append_nil _).symm
    · have hpos : 0<len := by omega
      have h0 := hs.nonneg
      have hw : wrap32 (pipe.len+len)=pipe.len+len := by
        have := hb hpos
        exact wrap32_eq (by omega) (by omega)
      rw [ho]
      dsimp only
      rw [hw]
      rcases pipeEnsureCapacity_cases env (hb hpos) hs.room with
        he|⟨grown,he,hop,hgl,hcap,hroom,hbuf⟩
      · rw [he]
        exact .inl rfl
      · rw [he]
        dsimp only
        obtain ⟨happ,hlen⟩ := buffered_append env.mem buf (by rw [hgl]; exact h0) hpos
          (by rw [hgl]; exact hb hpos)
        refine .inr ⟨_,appendBytes grown env.mem buf len,rfl,by omega,?_,hop,by rw [hlen,hgl],
          by rw [happ,hbuf]⟩
        change (wakeAll _ _).objects _=_
        rw [wakeAll_objects_eq]
        exact Function.update_self ..

/-- A read that succeeds gets the bytes asked for that are there, at least one. -/
theorem pipeReadLoop_result {id : ℤ} {buf : ℕ} {u u' : UserContext} {caller : PcbPtr} {rc : ℤ}
    (hs : PipeSeen pipe log) (ho : getObject s id=.pipe pipe) (hl : 0<len)
    (hf : pipeReadLoop M env caller id buf len u s=.returns t u' rc) :
    rc=min len pipe.len ∧ 1≤ rc ∧
      ∃ l,t.log=s.log++l++[.pipeReturned pipe.opened (contents pipe.buf rc.toNat)] := by
  unfold pipeReadLoop at hf
  rw [ho] at hf
  dsimp only at hf
  have h0 := hs.nonneg
  split at hf
  · cases hf
  · rename_i hne
    injection hf with ht _ hrc
    have hmin : rc=min len pipe.len := by
      rw [←hrc]
      unfold readCount
      split <;> omega
    refine ⟨hmin,by omega,[.stored s.currentProcess buf (readCount pipe len).toNat],?_⟩
    rw [←ht,←hrc]
    simp

/-- A step that runs the loop of SysPipeRead for a length, with the outcome. -/
inductive PipeReadRuns (M : Machine) (env : Env) (s : Kernel) : Input → ℤ → ℤ → Flow → Prop
  /-- A PipeRead call of the running process. -/
  | call (u : UserContext) (hu : s.cpu=.user) (hv : u.vector=.kernel)
      (hr : M.syscallOf u.code=.pipeRead) :
      PipeReadRuns M env s (.trap u) (u.int 0) (u.int 2)
        (sysPipeRead M env s.currentProcess (u.int 0) (u.ptr 1) (u.int 2) u (saveContext u s))
  /-- A PipeRead call that goes on. -/
  | resumed (id : ℤ) (buf : ℕ) (len : ℤ) (opened : ℕ) (hu : s.cpu=.kernel)
      (hk : (s.kernelContext s.currentProcess).point=.pipeRead id buf len opened) :
      PipeReadRuns M env s .resume id len
        (pipeReadLoop M env (s.kernelContext s.currentProcess).caller id buf len (savedContext s)
          (s.setKernelContext s.currentProcess ⟨s.currentProcess,.executing⟩))

/-- These are the steps whose result is that of the loop. -/
theorem pipeReadRuns_step {input : Input} {id : ℤ} {f : Flow}
    (h : PipeReadRuns M env s input id len f) :
    ∃ caller,kernelStep M env s input=finish caller f := by
  cases h with
  | call u hu hv hr =>
    refine ⟨s.currentProcess,?_⟩
    simp only [kernelStep,trap,hv,trapKernel,syscallDispatch,hr]
  | resumed id buf len opened hu hk =>
    refine ⟨(s.kernelContext s.currentProcess).caller,?_⟩
    simp only [kernelStep,resume,continueAt,hk]
    rfl

/-- Saving registers keeps the object table. -/
theorem saveContext_objects (u : UserContext) :
    (saveContext u s).objects=s.objects ∧ (saveContext u s).log=s.log := by
  unfold saveContext
  split
  · exact ⟨rfl,rfl⟩
  · exact ⟨rfl,rfl⟩

/-- A read that succeeds has recorded the bytes it returns. -/
theorem pipeRead_result {input : Input} {id : ℤ} {f : Flow} {u : UserContext} {rc : ℤ}
    (hs : PipeSeen pipe s.log) (ho : getObject s id=.pipe pipe) (hl : 0<len)
    (h : PipeReadRuns M env s input id len f) (hf : f=.returns t u rc) (hr : rc≠ERROR) :
    rc=min len pipe.len ∧ 1≤ rc ∧
      ∃ l,t.log=s.log++l++[.pipeReturned pipe.opened (contents pipe.buf rc.toNat)] := by
  cases h with
  | call u' hu hv hcall =>
    have hg : getObject (saveContext u' s) (u'.int 0)=.pipe pipe := by
      unfold getObject
      rw [(saveContext_objects u').1]
      exact ho
    unfold sysPipeRead at hf
    split at hf
    · injection hf with _ _ hrc
      exact absurd hrc.symm hr
    · split at hf
      · omega
      · split at hf
        · injection hf with _ _ hrc
          exact absurd hrc.symm hr
        · have hres := pipeReadLoop_result hs hg hl hf
          rw [(saveContext_objects u').2] at hres
          exact hres
  | resumed id buf len opened hu hk =>
    have hg : getObject (s.setKernelContext s.currentProcess ⟨s.currentProcess,.executing⟩) id=
        .pipe pipe := ho
    have hres := pipeReadLoop_result hs hg hl hf
    exact hres

/-- The writes to a pipe are not too long for the buffered bytes. -/
def WritesFit (M : Machine) (g : ℕ) (s : Kernel) : Input → Prop
  | .trap u => ∀ pipe,u.vector=.kernel → M.syscallOf u.code=.pipeWrite →
      getObject s (u.int 0)=.pipe pipe → pipe.opened=g → 0<u.int 2 → pipe.len+u.int 2≤2^30
  | .resume => True

/-- The labels of such runs. -/
def Fitting (g : ℕ) : Label → Prop
  | .put opened n len => opened=g → n+len≤2^30
  | _ => True

/-- The history of a pipe in a run in which its writes fit. -/
theorem run_pipeLog (h : Run M (fun _ => True)
    (fun s env input => env.switchOk=true ∧ WritesFit M g s input) s) : PipeLog g s := by
  have hok : ∀ s env input,env.switchOk=true ∧ WritesFit M g s input →
      env.switchOk=true ∧ StepAllowed M (Fitting g) s env input := by
    rintro s env input ⟨hsw,hfit⟩
    refine ⟨hsw,fun x hx => ?_⟩
    cases hx with
    | put u pipe hv hcall ho hpos => exact fun hg => hfit pipe hv hcall ho hg hpos
    | _ => trivial
  refine (run_invariant hok ?_ (fun c s t hc hp hop => ?_) h).2
  · intro b p q pfn pfns m₁ m₂ m v u _ _
    exact ⟨fun i pipe ho => (by cases ho),fun i j pipe pipe' ho => (by cases ho),
      fun _ => ⟨rfl,rfl⟩,fun i pipe ho => (by cases ho)⟩
  · exact op_pipeLog (fun n len hput => hput rfl) hc hp hop

/-- In every run in which the writes to a pipe fit, the bytes of the
successful writes are those of the completed reads followed by the buffered
ones; a write appends all its bytes or fails and changes nothing; and a read
that succeeds gets as many bytes as it asked for and there are, at least one. -/
theorem run_stream (h : Run M (fun _ => True)
      (fun s env input => env.switchOk=true ∧ WritesFit M g s input) s)
    (ho : s.objects i=.pipe pipe) (hg : pipe.opened=g) :
    s.log.flatMap (wroteTo g)=s.log.flatMap (readFrom g)++contents pipe.buf pipe.len.toNat ∧
      0≤pipe.len ∧ pipe.len≤pipe.cap ∧
      (∀ env u,s.cpu=.user → u.vector=.kernel → M.syscallOf u.code=.pipeWrite →
        getObject s (u.int 0)=.pipe pipe → WritesFit M g s (.trap u) →
        kernelStep M env s (.trap u)=finish s.currentProcess
            (sysPipeWrite env (u.int 0) (u.ptr 1) (u.int 2) u (saveContext u s)) ∧
          (sysPipeWrite env (u.int 0) (u.ptr 1) (u.int 2) u (saveContext u s)=
              .returns (saveContext u s) u ERROR ∨
            ∃ t pipe',sysPipeWrite env (u.int 0) (u.ptr 1) (u.int 2) u (saveContext u s)=
                .returns t u (u.int 2) ∧ 0≤u.int 2 ∧
              t.objects (u.int 0).toNat=.pipe pipe' ∧ pipe'.opened=g ∧
              pipe'.len=pipe.len+u.int 2 ∧ contents pipe'.buf pipe'.len.toNat=
                contents pipe.buf pipe.len.toNat++segment env.mem (u.ptr 1) (u.int 2).toNat)) ∧
      ∀ env input id len f,PipeReadRuns M env s input id len f → getObject s id=.pipe pipe →
        0<len → (∃ caller,kernelStep M env s input=finish caller f) ∧
          ∀ t u rc,f=.returns t u rc → rc≠ERROR → rc=min len pipe.len ∧ 1≤ rc ∧
            ∃ l,t.log=s.log++l++[.pipeReturned g (contents pipe.buf rc.toNat)] := by
  have hlog : PipeLog g s := run_pipeLog h
  subst hg
  have hs := hlog.seen i pipe ho rfl
  refine ⟨hs.stream,hs.nonneg,hs.fits,fun env u hcpu hv hcall hget hfit => ⟨?_,?_⟩,
    fun env input id len f hr hget hl => ⟨pipeReadRuns_step hr,fun t u rc hf hne =>
      pipeRead_result hs hget hl hr hf hne⟩⟩
  · simp only [kernelStep,trap,hv,trapKernel,syscallDispatch,hcall]
  · refine sysPipeWrite_result hs ?_ (fun hpos => hfit pipe hv hcall hget rfl hpos)
    unfold getObject
    rw [(saveContext_objects u).1]
    exact hget

/-- A test that a step writes no more bytes than fit. -/
def fitTest (s : Kernel) (env : Env) : Input → Bool
  | .trap u =>
    match getObject s (u.int 0) with
    | .pipe pipe => env.switchOk && decide (pipe.len+u.int 2≤2^30)
    | _ => env.switchOk
  | .resume => env.switchOk

/-- A step that passes the test fits into the pipe. -/
theorem fitTest_sound (g : ℕ) (s : Kernel) (env : Env) (input : Input)
    (h : fitTest s env input=true) : env.switchOk=true ∧ WritesFit M g s input := by
  cases input with
  | resume => exact ⟨h,trivial⟩
  | trap u =>
    dsimp only [fitTest] at h
    dsimp only [WritesFit]
    cases ho : getObject s (u.int 0) with
    | pipe pipe =>
      rw [ho] at h
      have hb : env.switchOk=true ∧ pipe.len+u.int 2≤2^30 := by simpa using h
      refine ⟨hb.1,fun pipe' _ _ he _ _ => ?_⟩
      injection he with he
      rw [←he]
      exact hb.2
    | free => rw [ho] at h; exact ⟨h,fun _ _ _ he => (by cases he)⟩
    | lock l => rw [ho] at h; exact ⟨h,fun _ _ _ he => (by cases he)⟩
    | cvar c => rw [ho] at h; exact ⟨h,fun _ _ _ he => (by cases he)⟩

/-- Whether the first object is the pipe with stamp two and two bytes in it. -/
def twoBytesLeft (s : Kernel) : Bool :=
  match s.objects 0 with
  | .pipe pipe => decide (pipe.opened=2 ∧ pipe.len=2)
  | _ => false

/-- A child reads four of the six bytes that its parent has written. -/
theorem run_stream_child : ∃ s pipe,Run sampleMachine (fun _ => True)
      (fun s env input => env.switchOk=true ∧ WritesFit sampleMachine 2 s input) s ∧
    s.objects 0=.pipe pipe ∧ pipe.len=2 ∧ s.log.flatMap (wroteTo 2)=
      s.log.flatMap (readFrom 2)++contents pipe.buf pipe.len.toNat := by
  obtain ⟨s,hr,hq⟩ := replay_exists (fun _ => True) (fitTest_sound 2) trivial sampleBoot_user
    [callInput 10 0x105000 0 0,callInput 12 0 0x105001 6,forkInput 3 2,
      tickInput,resumeInput,callInput 11 0 0x105001 4]
    twoBytesLeft (by decide +kernel)
  unfold twoBytesLeft at hq
  cases ho : s.objects 0 with
  | pipe pipe =>
    rw [ho] at hq
    have hp : pipe.opened=2 ∧ pipe.len=2 := by simpa using hq
    exact ⟨s,pipe,hr,ho,hp.2,(run_stream hr ho hp.1).1⟩
  | free => rw [ho] at hq; cases hq
  | lock l => rw [ho] at hq; cases hq
  | cvar c => rw [ho] at hq; cases hq

end Yalnix.PipeStream
