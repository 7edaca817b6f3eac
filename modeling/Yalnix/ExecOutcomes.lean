import Yalnix.BlockingReasons
import Yalnix.ExecArguments
import Yalnix.ExitStatuses
import Yalnix.UserPointers

/-!
# The outcomes of Exec

Exec fails and leaves its caller as it was, or it ends a caller whose image is
gone, or the caller goes on in the new image, with one exception: when the
zeroed data or the argument block reaches pages that are not mapped for stores,
the kernel stops in the middle. Apart from this exception every file that was
opened is closed and every kernel block is freed once, whatever the point of
failure, and a caller that was ended does not run again.
-/

namespace Yalnix.ExecOutcomes

open Framework FrameTable KernelState Scheduling Ipc Terminals ProcessLifetime ProgramLoading
open Syscalls Traps KernelStart Coherence Operations OperationCoherence StepOperations
open CallOperations RunInvariants Traces ExitStatuses AddressSpaces LoadedImages LoaderStages
open ByteMemory UserBytes ExecArguments ProcessIsolation Housekeeping

variable {M : Machine} {env : Env} {s t w : Kernel} {p q : PcbPtr} {u : UserContext}
  {filename argvec : ℕ} {args : List (List UInt8)} {a : QueueAddr} {i : ℕ}

section Exits

/-- Ledgers of files and kernel blocks. -/
def Ledger : Event → Prop
  | .execLedger _ _ _ _ => True
  | _ => False

/-- Routine events are no ledgers. -/
theorem routine_noLedger {e : Event} (h : Routine e) : ¬Ledger e := by
  cases e with
  | execLedger opened closed allocated freed => exact h.elim
  | _ => exact id

/-- A process becomes a zombie. -/
theorem becomeZombie_ends (status : ℤ) (k : KernelContext) (s : Kernel) :
    (becomeZombie status k s).exitStatus s.currentProcess=status ∧
      ∃ r l,(becomeZombie status k s).log=s.log++l ∧ (∀ e∈l,¬Ledger e) ∧
        .exited s.currentProcess (s.birth s.currentProcess) r status∈l := by
  unfold becomeZombie
  split
  · have hready := makeReady_keeping {s with
      exitStatus := Function.update s.exitStatus s.currentProcess status
      state := Function.update s.state s.currentProcess .zombie
      kernelContext := Function.update s.kernelContext s.currentProcess k
      waitingForChild := Function.update s.waitingForChild (s.parent s.currentProcess) false
      log := s.log++[.exited s.currentProcess (s.birth s.currentProcess)
          (s.parent s.currentProcess) status,
        .woken (s.parent s.currentProcess) (.child s.currentProcess)]} (s.parent s.currentProcess)
    obtain ⟨l,hl,hq⟩ := hready.log
    refine ⟨?_,_,_,hl.trans (List.append_assoc ..),fun e he => ?_,
      List.mem_append_left _ List.mem_cons_self⟩
    · rw [hready.status]
      exact Function.update_self ..
    · rcases List.mem_append.1 he with he|he
      · rcases List.mem_pair.1 he with rfl|rfl
        · exact id
        · exact id
      · exact routine_noLedger (hq e he)
  · refine ⟨Function.update_self ..,_,_,rfl,fun e he => ?_,List.mem_singleton_self _⟩
    rw [List.mem_singleton.1 he]
    exact id

/-- The initial process halts the machine, another one exits with its status. -/
theorem exitCurrent_ends (M : Machine) (env : Env) (s : Kernel) (status : ℤ)
    (h : ¬(s.currentProcess=0 ∨ s.currentProcess=s.idleProcess)) :
    (s.currentProcess=s.initProcess → (processExitCurrent M env status s).cpu=.halted) ∧
      ∃ l,(processExitCurrent M env status s).log=s.log++l ∧ (∀ e∈l,¬Ledger e) ∧
        (s.currentProcess≠s.initProcess →
          (processExitCurrent M env status s).exitStatus s.currentProcess=status ∧
            ∃ r,.exited s.currentProcess (s.birth s.currentProcess) r status∈l) := by
  unfold processExitCurrent
  rw [if_neg h]
  by_cases hi : s.currentProcess=s.initProcess
  · rw [if_pos hi]
    exact ⟨fun _ => rfl,[],(List.append_nil _).symm,fun _ he => absurd he List.not_mem_nil,
      fun hn => absurd hi hn⟩
  · rw [if_neg hi]
    -- the kernel before the process becomes a zombie, and behind
    generalize hv : ipcProcessExit s.currentProcess
      (orphanChildren s.currentProcess (s.children s.currentProcess) s)=v
    have hfreed : Keeping s v := by
      rw [←hv]
      exact (orphanChildren_keeping _ _ s).trans (ipcProcessExit_keeping _ _)
    have hcurrent : v.currentProcess=s.currentProcess := by
      rw [←hv]
      exact (releaseLoop_quiet (p := 0) _ _ _).current.trans (orphanChildren_untouched _ _ _).2
    have hnext : Keeping _ (leaveZombie M env
      (becomeZombie status ⟨s.currentProcess,.exited⟩ v)) := leaveZombie_keeping _
    obtain ⟨l,hl,hq⟩ := hfreed.log
    obtain ⟨hstatus,r,l',hl',hq',hmem⟩ := becomeZombie_ends status ⟨s.currentProcess,.exited⟩ v
    obtain ⟨l'',hl'',hq''⟩ := hnext.log
    rw [hcurrent,hfreed.birth] at hmem
    rw [hcurrent] at hstatus
    refine ⟨fun he => absurd he hi,l++(l'++l''),?_,fun e he => ?_,fun _ => ⟨?_,r,?_⟩⟩
    · rw [hl'',hl',hl,List.append_assoc,List.append_assoc]
    · rcases List.mem_append.1 he with he|he
      · exact routine_noLedger (hq e he)
      · exact (List.mem_append.1 he).elim (hq' e) (fun he => routine_noLedger (hq'' e he))
    · rw [hnext.status]
      exact hstatus
    · exact List.mem_append_right _ (List.mem_append_left _ hmem)

end Exits

section Ledgers

/-- One ledger has been recorded: a file that was opened is closed once, each
block that was allocated is freed once, and no other block is freed. -/
def Balanced (s t : Kernel) : Prop :=
  ∃ before after opened allocated freed,
    t.log=s.log++before++[.execLedger opened opened allocated freed]++after ∧
      (∀ e∈before++after,¬Ledger e) ∧ opened≤1 ∧ allocated.Nodup ∧ freed.Perm allocated

/-- The numbers of the blocks of the copies. -/
theorem blocks_eq (n : ℕ) : [0,1]++(List.range n).map (2+·)=List.range (2+n) := by
  rw [List.range_add]
  rfl

/-- A copy that fails frees what it allocated. -/
theorem copyExecArgs_failed {allocated freed : List ℕ}
    (h : copyExecArgs env filename argvec=.failed allocated freed) :
    allocated.Nodup ∧ freed.Perm allocated := by
  unfold copyExecArgs at h
  split at h
  · injection h with ha hf
    rw [←ha,←hf]
    exact ⟨List.nodup_nil,.refl _⟩
  · split at h
    · injection h with ha hf
      rw [←ha,←hf]
      exact ⟨List.nodup_nil,.refl _⟩
    · split at h
      · split at h
        · injection h with ha hf
          rw [←ha,←hf]
          exact ⟨List.nodup_singleton 0,.refl _⟩
        · split at h
          · injection h with ha hf
            rw [←ha,←hf]
            exact ⟨by decide,.swap 0 1 []⟩
          · cases h
      · split at h
        · injection h with ha hf
          rw [←ha,←hf]
          exact ⟨List.nodup_singleton 0,.refl _⟩
        · split at h
          · injection h with ha hf
            rw [←ha,←hf]
            exact ⟨List.nodup_singleton 0,.refl _⟩
          · split at h
            · injection h with ha hf
              rw [←ha,←hf]
              refine ⟨?_,List.perm_append_comm.trans (List.Perm.append_right _ (.swap 0 1 []))⟩
              rw [blocks_eq]
              exact List.nodup_range
            · cases h

/-- The ledger of a call whose copies succeeded, with or without the buffer of
the loader. -/
theorem loaded_balanced (n opened : ℕ) (extra : List ℕ) (before after : List Event)
    (hl : t.log=s.log++before++[.execLedger opened opened
      ([0,1]++(List.range n).map (2+·)++extra) (extra++([0,1]++(List.range n).map (2+·)))]++after)
    (hq : ∀ e∈before++after,¬Ledger e) (ho : opened≤1) (hx : extra=[] ∨ extra=[2+n]) :
    Balanced s t := by
  refine ⟨before,after,opened,_,_,hl,hq,ho,?_,List.perm_append_comm⟩
  rw [blocks_eq]
  rcases hx with rfl|rfl
  · rw [List.append_nil]
    exact List.nodup_range
  · rw [←List.range_succ]
    exact List.nodup_range

/-- What LoadProgram takes it gives back, unless it stops the kernel: it opens at
most one file and closes it, and it allocates at most its buffer and frees it. -/
theorem loadLedger_cases (M : Machine) (env : Env) (args : List (List UInt8)) (n : ℕ) (m : Memory)
    (v : UserSpace) : (∃ m' v',loadProgram M env args n m v=.fault m' v') ∨
      ∃ opened extra,loadLedger M env args n m v=⟨opened,opened,extra,extra⟩ ∧ opened≤1 ∧
        (extra=[] ∨ extra=[n]) := by
  unfold loadLedger loadProgram loadProgramRun
  split
  · exact .inr ⟨0,[],rfl,Nat.zero_le 1,.inl rfl⟩
  · split
    · exact .inr ⟨1,[],rfl,Nat.le_refl 1,.inl rfl⟩
    · split
      · exact .inr ⟨1,[],rfl,Nat.le_refl 1,.inl rfl⟩
      · split
        · exact .inr ⟨1,[],rfl,Nat.le_refl 1,.inl rfl⟩
        · split
          · exact .inr ⟨1,[],rfl,Nat.le_refl 1,.inl rfl⟩
          · split
            · exact .inr ⟨1,[n],rfl,Nat.le_refl 1,.inr rfl⟩
            · unfold fillImageRun
              split
              · exact .inr ⟨1,[n],rfl,Nat.le_refl 1,.inr rfl⟩
              · split
                · exact .inr ⟨1,[n],rfl,Nat.le_refl 1,.inr rfl⟩
                · split
                  · exact .inr ⟨1,[n],rfl,Nat.le_refl 1,.inr rfl⟩
                  · exact .inl ⟨_,_,rfl⟩

end Ledgers

section Outcomes

/-- A caller whose old image is gone has been ended with the status ERROR. -/
structure Killed (M : Machine) (env : Env) (s t : Kernel) : Prop where
  /-- The table maps pages of the new image only, in frames taken since. -/
  torn : ∃ args li m₁ ok,Loading M env args s.memory (s.space s.currentProcess) li m₁
    (t.space s.currentProcess).region1Pt ok
  /-- The initial process halts the machine. -/
  halts : s.currentProcess=s.initProcess → t.cpu=.halted
  /-- Another process exits with ERROR, and its exit has been recorded. -/
  exits : s.currentProcess≠s.initProcess → t.exitStatus s.currentProcess=ERROR ∧
    ∃ l r,t.log=s.log++l ∧ .exited s.currentProcess (s.birth s.currentProcess) r ERROR∈l

/-- The pages of an image, each in a frame of its own, and their bytes: the
text, over it the data, over it zeroes, and over all of them the argument block
and the strings. -/
structure ImageInPlace (M : Machine) (li : LoadInfo) (args : List (List UInt8))
    (text data : ℕ → UInt8) (m : Memory) (pt : PageTable) : Prop where
  /-- Exactly the pages of the segments are mapped. -/
  pages : ∀ i<M.maxPtLen,(pt i).valid=true ↔
    TextPage M li i ∨ DataPage M li i ∨ StackPage M args i
  /-- Their frames are in use and not shared. -/
  frames : Held (fun i => TextPage M li i ∨ DataPage M li i ∨ StackPage M args i) m pt
  /-- Text is for loads and execution. -/
  textProt : ∀ i,TextPage M li i → (pt i).prot=protReadExec
  /-- Other pages are for loads and stores. -/
  dataProt : ∀ i,¬TextPage M li i → DataPage M li i ∨ StackPage M args i →
    (pt i).prot=protReadWrite
  /-- The text is in memory where neither data, zeroes nor arguments lie over it. -/
  textBytes : ∀ k<(segmentSize M li.tNpg).toNat,(li.tVaddr : ℤ)+k<argBlock M args →
    ¬((li.idVaddr : ℤ)≤li.tVaddr+k ∧
      (li.tVaddr : ℤ)+k<li.idVaddr+(segmentSize M li.idNpg).toNat) →
    ¬((li.idEnd : ℤ)≤li.tVaddr+k ∧ (li.tVaddr : ℤ)+k<li.udEnd) →
    userByte M pt m.contents (li.tVaddr+k)=text k
  /-- The data are in memory where neither zeroes nor arguments lie over them. -/
  dataBytes : ∀ k<(segmentSize M li.idNpg).toNat,(li.idVaddr : ℤ)+k<argBlock M args →
    ¬((li.idEnd : ℤ)≤li.idVaddr+k ∧ (li.idVaddr : ℤ)+k<li.udEnd) →
    userByte M pt m.contents (li.idVaddr+k)=data k
  /-- The rest of the data is zero. -/
  zeroBytes : ∀ x : ℤ,li.idEnd≤x → x<li.udEnd → x<argBlock M args →
    userByte M pt m.contents x=0
  /-- The count, the pointers and two null words. -/
  block : Holds (userByte M pt m.contents) (argBlock M args) (littleEndian 4 args.length++
    (pointers (starts args (argStrings M args))++(littleEndian 4 0++littleEndian 4 0)))
  /-- The strings of the arguments are in the argument block. -/
  strings : Holds (userByte M pt m.contents) (argStrings M args) (ByteMemory.strings args)

/-- The caller is in a new image, and nothing else has changed. -/
structure Replaced (M : Machine) (env : Env) (args : List (List UInt8)) (s t : Kernel) : Prop where
  /-- The executable has been read and its image is in place. -/
  image : ∃ li text data,env.loadInfo=some li ∧
    env.fileRead li.tFaddr (segmentSize M li.tNpg).toNat=some text ∧
    env.fileRead li.idFaddr (segmentSize M li.idNpg).toNat=some data ∧
    ImageInPlace M li args text data t.memory (t.space s.currentProcess).region1Pt ∧
    (t.userContext s.currentProcess).pc=li.entry ∧
    (t.space s.currentProcess).userHeapStart=imageBrk M li ∧
    (t.space s.currentProcess).userBrk=imageBrk M li
  /-- The stack pointer is the one that the arguments leave. -/
  stack : ((t.userContext s.currentProcess).sp : ℤ)=stackPtr M args
  /-- The lowest page of the stack is the one that was mapped. -/
  limit : (t.space s.currentProcess).userStackLowPage=stackBasePg M args
  /-- Apart from memory, image and registers nothing has changed. -/
  frame : t={s with
    memory := t.memory
    space := Function.update s.space s.currentProcess (t.space s.currentProcess)
    userContext := Function.update s.userContext s.currentProcess (t.userContext s.currentProcess)
    log := t.log}

/-- The outcomes of Exec: an error, an ended caller, or a new image. -/
inductive ExecOutcome (M : Machine) (env : Env) (filename argvec : ℕ) (u : UserContext)
    (s : Kernel) : Flow → Prop
  /-- It fails and nothing but the history has changed. -/
  | refused {t : Kernel} (h : t={s with log := t.log}) :
      ExecOutcome M env filename argvec u s (.returns t u ERROR)
  /-- The caller is ended. -/
  | killed {t : Kernel} (h : Killed M env s t) : ExecOutcome M env filename argvec u s (.leaves t)
  /-- The caller goes on in the new image. -/
  | replaced {t : Kernel} (h : Replaced M env (namedArgs env filename argvec) s t) :
      ExecOutcome M env filename argvec u s (.returns t u SUCCESS)

/-- What Exec promises of a call: one of its outcomes, with everything that was
taken given back; a null or idle caller is refused before anything is taken. -/
def Outcomes (M : Machine) (env : Env) (filename argvec : ℕ) (u : UserContext)
    (s : Kernel) : Prop :=
  ExecOutcome M env filename argvec u s (sysExec M env filename argvec u s) ∧
    if s.currentProcess=0 ∨ s.currentProcess=s.idleProcess then
      sysExec M env filename argvec u s=.returns s u ERROR
    else Balanced s (UserPointers.flowKernel (sysExec M env filename argvec u s))

/-- The call does not get as far as filling an image, or the zeroed data and the
argument block of its image lie in pages that can be stored to. -/
def ExecSafe (M : Machine) (env : Env) (filename argvec : ℕ) (s : Kernel) : Prop :=
  s.currentProcess=0 ∨ s.currentProcess=s.idleProcess ∨ ¬CopiesMade env filename argvec ∨
    ∀ li,Fillable M env (namedArgs env filename argvec)
        (2+(namedArgs env filename argvec).length) s.memory (s.space s.currentProcess) li →
      FillFits M li (namedArgs env filename argvec)

/-- The bytes of an image that was loaded below its argument block. -/
theorem loaded_bytes {m m' m₁ : Memory} {v v' : UserSpace} {li : LoadInfo} {text data : ℕ → UInt8}
    {pt₁ : PageTable} (h : ImageLoaded M env args m v li text data m₁ pt₁ m' v') :
    (0≤ stackPtr M args ∧ Holds (userByte M v'.region1Pt m'.contents) (argBlock M args)
      (littleEndian 4 args.length++(pointers (starts args (argStrings M args))++
        (littleEndian 4 0++littleEndian 4 0))) ∧
      Holds (userByte M v'.region1Pt m'.contents) (argStrings M args) (ByteMemory.strings args)) ∧
    ∀ x,Within M (ImagePage M li args) x → x<argBlock M args →
      userByte M v'.region1Pt m'.contents x=
        overwrite (overwrite (overwrite (userByte M pt₁ m₁.contents) li.tVaddr
          (segmentSize M li.tNpg).toNat text) li.idVaddr (segmentSize M li.idNpg).toNat data)
          li.idEnd (li.udEnd-li.idEnd) (fun _ => 0) x := by
  obtain ⟨hheld,hstack⟩ := mapImage_held h.image
  have h0 := hstack (stackNpg_pos M args)
  have hin : ∀ x,stackPtr M args≤x → x<M.vmem1Limit → Within M (StackPage M args) x :=
    fun x h₁ h₂ => stack_within h0 h₁ h₂
  obtain ⟨_,hgap,hend,hptr⟩ := block_layout M args
  have hbase := (hin (stackPtr M args) (Int.le_refl _) (by omega)).base
  have hlimit := M.vmem1Limit_le
  obtain ⟨hblock,hstrings,hframe⟩ := storeStack_stored args
    (segmentContents M li pt₁ text data m₁.contents) hheld.own
    (fun x h₁ h₂ => (hin x h₁ h₂).mono (fun i hi => .inr (.inr hi))) (by omega)
  have hview : userByte M v'.region1Pt m'.contents=userByte M pt₁
      (storeStack M pt₁ args (segmentContents M li pt₁ text data m₁.contents)) := by
    rw [h.memory,h.space]
    exact funext fun x => userByte_protect _ _
  rw [hview]
  refine ⟨⟨by omega,hblock,hstrings⟩,fun x hx hbelow => ?_⟩
  rw [hframe x hx hbelow]
  exact segmentContents_view h hheld.own hx

/-- An image that was loaded is in place. -/
theorem loaded_inPlace {m m' m₁ : Memory} {v v' : UserSpace} {li : LoadInfo} {text data : ℕ → UInt8}
    {pt₁ : PageTable} (h : ImageLoaded M env args m v li text data m₁ pt₁ m' v') :
    0≤ stackPtr M args ∧ ImageInPlace M li args text data m' v'.region1Pt := by
  obtain ⟨⟨h0,hblock,hstrings⟩,hbytes⟩ := loaded_bytes h
  obtain ⟨hheld,_⟩ := mapImage_held h.image
  have htable := fun i => image_table h.accepted h.image (fun j hj => freed_invalid hj) i
  have hzero : li.idEnd≤li.udEnd := h.fill.order
  refine ⟨h0,⟨fun i hi => ?_,?_,fun i hi => ?_,fun i ht hd => ?_,fun k hk hb hd hz => ?_,
    fun k hk hb hz => ?_,fun x h₁ h₂ hb => ?_,hblock,hstrings⟩⟩
  · rw [h.space]
    exact (htable i).1 hi
  · rw [h.memory,h.space]
    refine ⟨fun i hi => ?_,fun i j hi hj he => hheld.own i j hi hj ?_⟩
    · dsimp only
      rw [(protectText_valid i).2]
      exact hheld.used i hi
    · dsimp only at he
      rw [(protectText_valid i).2,(protectText_valid j).2] at he
      exact he
  · rw [h.space]
    exact (htable i).2.1 hi
  · rw [h.space]
    exact (htable i).2.2 ht hd
  · rw [hbytes _ (range_addresses h.textRange hk) hb,overwrite_out (by omega),
      overwrite_out (by omega),overwrite_in (by omega) (by omega)]
    congr 1
    omega
  · rw [hbytes _ (range_addresses h.dataRange hk) hb,overwrite_out (by omega),
      overwrite_in (by omega) (by omega)]
    congr 1
    omega
  · have hx := range_addresses (k := (x-li.idEnd).toNat) h.fill.zeroed (by omega)
    have he : (li.idEnd : ℤ)+((x-li.idEnd).toNat : ℕ)=x := by omega
    rw [he] at hx
    rw [hbytes _ (hx.mono (fun i hi => .inr hi.2)) hb,overwrite_in h₁ (by omega)]

/-- The loads of the copies are no ledgers. -/
theorem loads_noLedger (l : List (ℕ × ℕ)) :
    ∀ e∈l.map (fun b => Event.loaded p b.1 b.2),¬Ledger e := by
  intro e he
  obtain ⟨b,_,rfl⟩ := List.mem_map.1 he
  exact id

/-- The end of a caller whose image could not be completed. -/
theorem killed_outcome {m : Memory} {v : UserSpace}
    (hi : ¬(s.currentProcess=0 ∨ s.currentProcess=s.idleProcess)) (l : List Event)
    (hl : loadProgram M env args (2+args.length) s.memory (s.space s.currentProcess)=.kill m v) :
    Killed M env s (processExitCurrent M env ERROR {s with
        memory := m
        space := Function.update s.space s.currentProcess v
        log := s.log++l}) ∧
      ∃ after,(processExitCurrent M env ERROR {s with
          memory := m
          space := Function.update s.space s.currentProcess v
          log := s.log++l}).log=s.log++l++after ∧ ∀ e∈after,¬Ledger e := by
  obtain ⟨hhalt,after,hlog,hq,hexit⟩ := exitCurrent_ends M env {s with
      memory := m
      space := Function.update s.space s.currentProcess v
      log := s.log++l} ERROR hi
  have hspace : (processExitCurrent M env ERROR {s with
      memory := m
      space := Function.update s.space s.currentProcess v
      log := s.log++l}).space=_ := (UserPointers.exitCurrent_noAccess ERROR _).space
  obtain ⟨li,m₁,pt₁,ok,c,hload,_,hv⟩ := loadProgram_kill hl
  refine ⟨⟨⟨args,li,m₁,ok,?_⟩,hhalt,fun hn => ?_⟩,after,hlog,hq⟩
  · rw [hspace]
    dsimp only
    rw [Function.update_self,hv]
    exact hload
  · obtain ⟨hstatus,r,hr⟩ := hexit hn
    exact ⟨hstatus,l++after,r,hlog.trans (List.append_assoc ..),List.mem_append_right _ hr⟩

/-- The events of the copies. -/
def copyEvents (env : Env) (p : PcbPtr) (filename argvec : ℕ) : List Event :=
  (execLoads env filename argvec).map (fun b => Event.loaded p b.1 b.2)

/-- A caller whose program was loaded is in the new image. -/
theorem replaced_outcome {m : Memory} {v : UserSpace} {pc : ℕ} {sp : ℤ} (log : List Event)
    (hload : loadProgram M env args (2+args.length) s.memory (s.space s.currentProcess)=
      .success m v pc sp) :
    Replaced M env args s {s with
      memory := m
      space := Function.update s.space s.currentProcess v
      userContext := Function.update s.userContext s.currentProcess
        {s.userContext s.currentProcess with pc := pc, sp := sp.toNat}
      log := log} := by
  obtain ⟨li,text,data,m₁,pt₁,hloaded,hpc,hsp⟩ := loadProgram_loaded hload
  obtain ⟨h0,hplace⟩ := loaded_inPlace hloaded
  refine ⟨⟨li,text,data,hloaded.info,hloaded.textRead,hloaded.dataRead,?_,?_,?_,?_⟩,?_,?_,?_⟩
  · dsimp only
    rw [Function.update_self]
    exact hplace
  · dsimp only
    rw [Function.update_self]
    exact hpc
  · dsimp only
    rw [Function.update_self,hloaded.space]
  · dsimp only
    rw [Function.update_self,hloaded.space]
  · dsimp only
    rw [Function.update_self,hsp]
    exact Int.toNat_of_nonneg h0
  · dsimp only
    rw [Function.update_self,hloaded.space]
  · dsimp only
    rw [Function.update_self,Function.update_self]

/-- The outcome of a call of another process than idle that does not stop the
kernel. -/
theorem sysExec_outcome (hi : ¬(s.currentProcess=0 ∨ s.currentProcess=s.idleProcess))
    (hn : ¬ExecFaults M env filename argvec s) :
    ExecOutcome M env filename argvec u s (sysExec M env filename argvec u s) ∧
      Balanced s (UserPointers.flowKernel (sysExec M env filename argvec u s)) := by
  have hloads : ∀ e∈copyEvents env s.currentProcess filename argvec,¬Ledger e := loads_noLedger _
  have hquiet : ∀ e∈copyEvents env s.currentProcess filename argvec++[],¬Ledger e := by
    rw [List.append_nil]
    exact hloads
  unfold sysExec
  rw [if_neg hi]
  unfold execImage
  split
  · rename_i allocated freed hcopy
    obtain ⟨hnodup,hperm⟩ := copyExecArgs_failed hcopy
    exact ⟨.refused rfl,_,[],0,allocated,freed,(List.append_nil _).symm,hquiet,Nat.zero_le 1,
      hnodup,hperm⟩
  · rename_i args blocks hcopy
    obtain ⟨hargs,_,hblocks⟩ := copyExecArgs_copied hcopy
    obtain ⟨opened,extra,hledger,hone,hextra⟩ :=
      (loadLedger_cases M env args (2+args.length) s.memory (s.space s.currentProcess)).resolve_left
        (fun ⟨m,v,h⟩ => hn ⟨args,blocks,m,v,hcopy,h⟩)
    have hevent : execLedger blocks (loadLedger M env args (2+args.length) s.memory
        (s.space s.currentProcess))=.execLedger opened opened (blocks++extra) (extra++blocks) := by
      rw [hledger]
      rfl
    dsimp only [noteLoads]
    rw [hevent]
    split
    · refine ⟨.refused rfl,loaded_balanced args.length opened extra _ [] ?_ hquiet hone hextra⟩
      rw [hblocks]
      exact (List.append_nil _).symm
    · rename_i m v hload
      obtain ⟨hkilled,after,hlog,hq⟩ := killed_outcome hi
        (copyEvents env s.currentProcess filename argvec++
          [.execLedger opened opened (blocks++extra) (extra++blocks)]) hload
      refine ⟨.killed ?_,loaded_balanced args.length opened extra
        (copyEvents env s.currentProcess filename argvec) after ?_ (fun e he => ?_) hone hextra⟩
      · rw [←List.append_assoc] at hkilled
        exact hkilled
      · rw [←List.append_assoc,hblocks] at hlog
        rw [hblocks]
        exact hlog
      · exact (List.mem_append.1 he).elim (hloads e) (hq e)
    · rename_i m v hload
      exact absurd ⟨args,blocks,m,v,hcopy,hload⟩ hn
    · rename_i m v pc sp hload
      refine ⟨.replaced ?_,loaded_balanced args.length opened extra _ [] ?_ hquiet hone hextra⟩
      · rw [←hargs]
        exact replaced_outcome _ hload
      · rw [hblocks]
        exact (List.append_nil _).symm

/-- A call that stops the kernel has recorded its copies and a ledger only. -/
theorem sysExec_faults (hi : ¬(s.currentProcess=0 ∨ s.currentProcess=s.idleProcess))
    (hf : ExecFaults M env filename argvec s) :
    ∃ t l,sysExec M env filename argvec u s=.leaves t ∧ t.cpu=.faulted ∧ t.log=s.log++l ∧
      ∀ x b r status,Event.exited x b r status∉l := by
  obtain ⟨args,blocks,m,v,hcopy,hload⟩ := hf
  unfold sysExec
  rw [if_neg hi]
  unfold execImage
  rw [hcopy]
  dsimp only [noteLoads]
  rw [hload]
  refine ⟨_,_,rfl,rfl,List.append_assoc ..,fun x b r status he => ?_⟩
  rcases List.mem_append.1 he with he|he
  · obtain ⟨a,_,ha⟩ := List.mem_map.1 he
    cases ha
  · cases List.mem_singleton.1 he

/-- A call that stops the kernel has none of the outcomes. -/
theorem faults_noOutcome (hi : ¬(s.currentProcess=0 ∨ s.currentProcess=s.idleProcess))
    (hf : ExecFaults M env filename argvec s) : ¬Outcomes M env filename argvec u s := by
  rintro ⟨hout,_⟩
  obtain ⟨t,l,he,hcpu,hlog,hnone⟩ := @sysExec_faults M env s u filename argvec hi hf
  rw [he] at hout
  cases hout with
  | killed hk =>
    by_cases hinit : s.currentProcess=s.initProcess
    · rw [hk.halts hinit] at hcpu
      cases hcpu
    · obtain ⟨_,l',r,hlog',hr⟩ := hk.exits hinit
      rw [List.append_cancel_left (hlog.symm.trans hlog')] at hnone
      exact hnone _ _ _ _ hr

/-- A call is safe exactly when it does not stop the kernel. -/
theorem execSafe_iff (hi : ¬(s.currentProcess=0 ∨ s.currentProcess=s.idleProcess)) :
    ExecSafe M env filename argvec s ↔ ¬ExecFaults M env filename argvec s := by
  have hcaller := not_or.1 hi
  have hfault : ExecFaults M env filename argvec s ↔ CopiesMade env filename argvec ∧
      ∃ li,Fillable M env (namedArgs env filename argvec)
        (2+(namedArgs env filename argvec).length) s.memory (s.space s.currentProcess) li ∧
        ¬FillFits M li (namedArgs env filename argvec) := by
    rw [←copyExecArgs_iff,←loadProgram_fault_iff]
    constructor
    · rintro ⟨args,blocks,m,v,hcopy,hload⟩
      obtain ⟨hargs,_⟩ := copyExecArgs_copied hcopy
      rw [hargs] at hload
      exact ⟨⟨args,blocks,hcopy⟩,m,v,hload⟩
    · rintro ⟨⟨args,blocks,hcopy⟩,m,v,hload⟩
      obtain ⟨hargs,_⟩ := copyExecArgs_copied hcopy
      rw [←hargs] at hload
      exact ⟨args,blocks,m,v,hcopy,hload⟩
  rw [hfault]
  constructor
  · rintro (h|h|h|h)
    · exact absurd h hcaller.1
    · exact absurd h hcaller.2
    · exact fun hx => h hx.1
    · exact fun ⟨_,li,hfill,hn⟩ => hn (h li hfill)
  · intro h
    by_cases hc : CopiesMade env filename argvec
    · refine .inr (.inr (.inr (fun li hfill => ?_)))
      by_contra hn
      exact h ⟨hc,li,hfill,hn⟩
    · exact .inr (.inr (.inl hc))

/-- A call has one of the outcomes exactly when it is safe. -/
theorem outcomes_iff (M : Machine) (env : Env) (filename argvec : ℕ) (u : UserContext)
    (s : Kernel) : Outcomes M env filename argvec u s ↔ ExecSafe M env filename argvec s := by
  by_cases hi : s.currentProcess=0 ∨ s.currentProcess=s.idleProcess
  · have he : sysExec M env filename argvec u s=.returns s u ERROR := if_pos hi
    refine ⟨fun _ => hi.elim .inl (fun h => .inr (.inl h)),fun _ => ?_⟩
    unfold Outcomes
    rw [if_pos hi,he]
    exact ⟨.refused rfl,rfl⟩
  · rw [execSafe_iff hi]
    constructor
    · exact fun h hf => faults_noOutcome hi hf h
    · intro hn
      obtain ⟨hout,hbal⟩ := @sysExec_outcome M env s u filename argvec hi hn
      refine ⟨hout,?_⟩
      rw [if_neg hi]
      exact hbal

end Outcomes

section Runs

/-- States of the runs that go on from a state. -/
inductive Follows (M : Machine) (s : Kernel) : Kernel → Prop
  /-- A run may end where it begins. -/
  | refl : Follows M s s
  /-- A run goes on with one more step whose switch succeeds. -/
  | step {t : Kernel} (env : Env) (input : Input) (h : Follows M s t) (he : input.Enabled t)
      (hok : env.switchOk=true) : Follows M s (kernelStep M env t input)

/-- What goes on from a reachable state is reachable. -/
theorem Follows.reachable (h : Follows M s t) (hr : Reachable M s) : Reachable M t := by
  induction h with
  | refl => exact hr
  | step env input _ he hok ih => exact .step env input ih he hok

/-- What is recorded stays recorded in every later state. -/
theorem Follows.log (h : Follows M s t) (hr : Reachable M s) : s.log⊆t.log := by
  induction h with
  | refl => exact List.Subset.refl _
  | @step v env input h he hok ih =>
    obtain ⟨hs,_⟩ := reachable_invariant (P := fun _ => True) (fun _ _ _ _ _ _ _ _ _ _ _ => trivial)
      (fun _ _ _ _ _ _ => trivial) (h.reachable hr)
    have hall : StepAllowed M (fun _ => True) v env input := fun _ _ => trivial
    obtain ⟨l,hl,_⟩ := BlockingReasons.ops_goes hs.toCoherent (kernelStep_done hs hok he hall).1
    rw [hl]
    exact fun e he => List.mem_append_left _ (ih he)

/-- A process that has exited does not run in user mode again. -/
theorem exited_gone {x b : ℕ} {r : PcbPtr} {status : ℤ} (hr : Reachable M t)
    (hx : .exited x b r status∈t.log) (h : Follows M t w) (hu : w.cpu=.user) :
    w.birth w.currentProcess≠b := by
  obtain ⟨hs,hl⟩ := reachable_invariant (P := Lineage)
    (fun b p q pfn pfns m₁ m₂ m v u hf => booted_lineage hf)
    (fun c s t hc hp hop => op_lineage hc hp hop) (h.reachable hr)
  have hactive := hs.user hu
  have hn := hl.running w.currentProcess hs.ready.current_live
    hactive.toRunnable.not_zombie
  intro he
  rw [he] at hn
  exact hn (List.mem_flatMap.2 ⟨_,h.log hr hx,List.mem_singleton_self b⟩)

/-- A machine that runs neither a process nor the kernel stays as it is. -/
theorem stopped_stays (hu : t.cpu≠.user) (hk : t.cpu≠.kernel) (h : Follows M t w) : w=t := by
  induction h with
  | refl => rfl
  | step env input _ he _ ih =>
    subst ih
    cases input with
    | trap u => exact absurd he hu
    | resume => exact absurd he hk

/-- In a run a caller that Exec does not return to is not in user mode again. -/
theorem left_gone (hr : Reachable M s) (hu : s.cpu=.user) (hsw : env.switchOk=true)
    (hv : u.vector=.kernel) (hx : M.syscallOf u.code=.exec)
    (hflow : sysExec M env (u.ptr 0) (u.ptr 1) u (saveContext u s)=.leaves t) :
    kernelStep M env s (.trap u)=t ∧ ∀ w,Follows M t w → w.cpu=.user →
      w.birth w.currentProcess≠s.birth s.currentProcess := by
  have hstep : kernelStep M env s (.trap u)=t := by
    dsimp only [kernelStep,trap]
    rw [hv]
    dsimp only [trapKernel]
    unfold syscallDispatch
    rw [hx]
    dsimp only
    rw [hflow]
    rfl
  obtain ⟨hs,_⟩ := reachable_invariant (P := fun _ => True) (fun _ _ _ _ _ _ _ _ _ _ _ => trivial)
    (fun _ _ _ _ _ _ => trivial) hr
  have hrt : Reachable M t := by
    rw [←hstep]
    exact .step env (.trap u) hr hu hsw
  have hsave : saveContext u s=s.setUserContext s.currentProcess u :=
    KernelEntries.saveContext_current u (hs.ready.ne_null hs.ready.current_live)
  rw [hsave] at hflow
  have hidle : ¬(s.currentProcess=0 ∨ s.currentProcess=s.idleProcess) := by
    intro hi
    have he : sysExec M env (u.ptr 0) (u.ptr 1) u (s.setUserContext s.currentProcess u)=
        .returns _ u ERROR := if_pos hi
    rw [he] at hflow
    cases hflow
  refine ⟨hstep,fun w hw hwu => ?_⟩
  by_cases hf : ExecFaults M env (u.ptr 0) (u.ptr 1) (s.setUserContext s.currentProcess u)
  · obtain ⟨_,_,he,hcpu,_⟩ := @sysExec_faults M env (s.setUserContext s.currentProcess u) u
      (u.ptr 0) (u.ptr 1) hidle hf
    rw [hflow] at he
    injection he with he
    rw [←he] at hcpu
    rw [stopped_stays (by rw [hcpu]; decide) (by rw [hcpu]; decide) hw,hcpu] at hwu
    cases hwu
  · have hout := (@sysExec_outcome M env (s.setUserContext s.currentProcess u) u
      (u.ptr 0) (u.ptr 1) hidle hf).1
    rw [hflow] at hout
    cases hout with
    | killed hk =>
      by_cases hi : s.currentProcess=s.initProcess
      · have hhalted : t.cpu=.halted := hk.halts hi
        rw [stopped_stays (by rw [hhalted]; decide) (by rw [hhalted]; decide) hw,hhalted] at hwu
        cases hwu
      · obtain ⟨_,l,r,hlog,hmem⟩ := hk.exits hi
        have hrecorded : .exited s.currentProcess (s.birth s.currentProcess) r ERROR∈t.log := by
          rw [hlog]
          exact List.mem_append_right _ hmem
        exact exited_gone hrt hrecorded hw hwu

/-- Whether a call leaves its caller. -/
def leaves : Flow → Bool
  | .returns _ _ _ => false
  | .leaves _ => true

/-- Answers for an executable whose segments cannot be read in full. -/
def truncatedEnv : Env := {sampleEnv 0 0 with fileRead := fun _ _ => none}

/-- An executable whose zeroed data begins in the page that text and data share. -/
def sharedImage : LoadInfo :=
  ⟨0x100000,0x100000,0,2,0x102000,0x4000,1,1,0x103000,0x106000,sample_counts,by decide⟩

/-- Whether a call stops the kernel. -/
def faults : Flow → Bool
  | .returns _ _ _ => false
  | .leaves t => t.cpu=.faulted

end Runs

end Yalnix.ExecOutcomes
