import Yalnix.PipeStream

/-!
# The buffers of pipes

Pipes of arbitrary runs: which capacities the doubling loop reaches and for
which sizes it ends, when a write stays below the capacity of the buffer, and
which copies inside the kernel get disjoint ranges. All sizes are C ints; the
sum of buffered and new bytes is not checked before it is used.
-/

namespace Yalnix.PipeBuffers

open Framework FrameTable KernelState Scheduling Ipc Terminals ProcessLifetime ProgramLoading
open Syscalls Traps KernelStart Coherence Operations OperationCoherence CallOperations
open RunInvariants Traces ByteCopy PipeStream

variable {M : Machine} {allow : Label → Prop} {s t : Kernel} {env : Env} {pipe grown : PipeState}
  {needed len cap c : ℤ} {n k : ℕ}

section Pipes

variable {Q : PipeState → Prop}

/-- Every pipe has a property. -/
def Pipes (Q : PipeState → Prop) (s : Kernel) : Prop := ∀ i pipe,s.objects i=.pipe pipe → Q pipe

/-- A property of new pipes that reads and writes keep. -/
structure PipeRules (M : Machine) (allow : Label → Prop) (Q : PipeState → Prop) : Prop where
  /-- A new pipe has it. -/
  opened : ∀ buf stamp,Q ⟨buf,0,M.pipeBufferLen,stamp⟩
  /-- A read keeps it. -/
  taken : ∀ pipe len,0<len → pipe.len≠0 → Q pipe → Q (consumeBytes pipe (readCount pipe len))
  /-- A write keeps it. -/
  put : ∀ env pipe grown buf len,0<len → allow (.put pipe.opened pipe.len len) →
    pipeEnsureCapacity env pipe (wrap32 (pipe.len+len))=.enough grown → Q pipe →
    Q (appendBytes grown env.mem buf len)

/-- Objects are replaced by others than pipes. -/
theorem Pipes.setObject {i : ℕ} {o : IpcObject} (h : Pipes Q s) (hn : ∀ pipe,o≠.pipe pipe)
    (ho : t.objects=Function.update s.objects i o) : Pipes Q t := by
  intro j pipe hj
  rw [ho] at hj
  by_cases he : j=i
  · rw [he,Function.update_self] at hj
    exact absurd hj (hn pipe)
  · rw [Function.update_of_ne he] at hj
    exact h j pipe hj

/-- A pipe may be replaced by one with the same property. -/
theorem Pipes.setPipe {i : ℕ} {pipe' : PipeState} (h : Pipes Q s) (hq : Q pipe')
    (ho : t.objects=Function.update s.objects i (.pipe pipe')) : Pipes Q t := by
  intro j pipe₁ hj
  rw [ho] at hj
  rcases update_pipe hj with ⟨_,hp⟩|⟨_,hj⟩
  · rw [hp]
    exact hq
  · exact h j pipe₁ hj

/-- The object table is kept. -/
theorem Pipes.keep (h : Pipes Q s) (ho : t.objects=s.objects) : Pipes Q t := by
  intro j pipe₁ hj
  rw [ho] at hj
  exact h j pipe₁ hj

/-- Every operation keeps such a property. -/
theorem op_pipes {b : Bool} (hr : PipeRules M allow Q) (hc : Coherent M s) (h : Pipes Q s)
    (hop : Op M allow b s t) : Pipes Q t := by
  cases hop with
  | dispatch env hs =>
    have he := dispatchNext_eq hc hs
    rw [he]
    exact h
  | forkUndone env c pfns pt m₁ m u ha hcp =>
    obtain ⟨h0,hl⟩ := callocPcb_fresh hcp
    rw [destroyed_child hc h0 hl]
    exact h
  | spawn env caller c pfns pt m₁ m u hb hcp =>
    rw [spawn_eq]
    exact h
  | collect statusPtr c ha hch hz =>
    rw [collectChild_eq hc ha statusPtr hch hz]
    exact h
  | unlock i l => exact h.setObject (by simp) rfl
  | handOff i l w rest u =>
    have hclear : Pipes Q
        {s with objects := Function.update s.objects i (.lock {l with owner := 0})} :=
      h.setObject (by simp) rfl
    exact hclear.setObject (by simp) rfl
  | openPipe env i hi hf => exact h.setPipe (hr.opened _ _) rfl
  | openLock i hi hf => exact h.setObject (by simp) rfl
  | openCvar i hi hf => exact h.setObject (by simp) rfl
  | takeBytes i pipe len ho hl hp => exact h.setPipe (hr.taken pipe len hl hp (h i pipe ho)) rfl
  | putBytes env i pipe grown buf len ho hl hq hg hput =>
    exact h.setPipe (hr.put env pipe grown buf len hl hput hg (h i pipe ho)) rfl
  | lockTake i l => exact h.setObject (by simp) rfl
  | reclaim i hu => exact h.setObject (by simp) rfl
  | _ => exact h

/-- A run whose writes are allowed keeps such a property. -/
theorem run_pipes {okBoot : Boot M → Prop} {ok : Kernel → Env → Input → Prop}
    (hok : ∀ s env input,ok s env input → env.switchOk=true ∧ StepAllowed M allow s env input)
    (hr : PipeRules M allow Q) (h : Run M okBoot ok s) : Pipes Q s :=
  (run_invariant hok (fun _ _ _ _ _ _ _ _ _ _ _ _ i pipe ho => (by cases ho))
    (fun _ _ _ hc hp hop => op_pipes hr hc hp hop) h).2

/-- Whether the first object is a pipe of the first capacity with these bytes. -/
def holdsBytes (n : ℤ) (s : Kernel) : Bool :=
  match s.objects 0 with
  | .pipe pipe => decide (pipe.len=n ∧ pipe.cap=256)
  | _ => false

/-- The pipe of the test. -/
theorem of_holdsBytes {n : ℤ} (h : holdsBytes n s=true) :
    ∃ pipe,s.objects 0=.pipe pipe ∧ pipe.len=n ∧ pipe.cap=256 := by
  unfold holdsBytes at h
  cases ho : s.objects 0 with
  | pipe pipe =>
    rw [ho] at h
    exact ⟨pipe,rfl,of_decide_eq_true h⟩
  | free => rw [ho] at h; cases h
  | lock l => rw [ho] at h; cases h
  | cvar c => rw [ho] at h; cases h

end Pipes

section Doubling

/-- The capacity behind j doublings, in 32-bit arithmetic. -/
def doubled (M : Machine) (j : ℕ) : ℤ := wrap32 (M.pipeBufferLen*2^j)

/-- The loop of PipeEnsureCapacity ends. -/
def Ends (needed cap : ℤ) : Prop := ∃ n c,doubleCapacity needed n cap=some c

/-- A size is not above every capacity that doubling can produce. -/
def Doubles (M : Machine) (needed : ℤ) : Prop := ∃ j≤32,needed≤doubled M j

/-- A capacity that doubling has produced and that is the largest so far. -/
def ReachedCap (M : Machine) (cap : ℤ) : Prop :=
  ∃ k,cap=doubled M k ∧ ∀ j≤ k,doubled M j≤ cap

/-- One more doubling of the capacity, as the C int computes it. -/
theorem doubled_succ (M : Machine) (j : ℕ) : wrap32 (doubled M j*2)=doubled M (j+1) := by
  unfold doubled wrap32
  rw [Int.bmod_mul_bmod,Int.mul_assoc,←Int.pow_succ]

/-- Nothing is left of a number behind 32 doublings. -/
theorem wrap32_pow (a : ℤ) {j : ℕ} (hj : 32≤j) : wrap32 (a*2^j)=0 := by
  have he : a*2^j=a*2^(j-32)*((2^32 : ℕ) : ℤ) := by
    have hp : (2 : ℤ)^j=2^(j-32)*2^32 := by
      rw [←Int.pow_add]
      congr 1
      omega
    have hq : ((2^32 : ℕ) : ℤ)=2^32 := by omega
    rw [hp,hq,Int.mul_assoc]
  unfold wrap32
  rw [he]
  exact Int.mul_bmod_left _ _

/-- Nothing is left of the first capacity. -/
theorem doubled_zero (M : Machine) {j : ℕ} (hj : 32≤j) : doubled M j=0 := wrap32_pow _ hj

/-- The loop ends at the first doubling that is enough. -/
theorem doubleCapacity_first (h : doubleCapacity needed n (doubled M k)=some c) :
    ∃ j<n,c=doubled M (k+j) ∧ needed≤ c ∧ ∀ i<j,doubled M (k+i)<needed := by
  induction n generalizing k with
  | zero => cases h
  | succ n ih =>
    rw [doubleCapacity] at h
    split at h
    · rename_i hlt
      rw [doubled_succ] at h
      obtain ⟨j,hj,hc,hn,hall⟩ := ih h
      refine ⟨j+1,by omega,by rw [hc]; congr 1; omega,hn,fun i hi => ?_⟩
      cases i with
      | zero => exact hlt
      | succ i =>
        have hi := hall i (by omega)
        rwa [Nat.add_assoc,Nat.add_comm 1 i] at hi
    · rename_i hge
      injection h with h
      exact ⟨0,by omega,h.symm,by omega,fun i hi => absurd hi (Nat.not_lt_zero i)⟩

/-- It ends when some doubling is enough. -/
theorem doubleCapacity_ends (h : ∃ j<n,needed≤doubled M (k+j)) :
    ∃ c,doubleCapacity needed n (doubled M k)=some c := by
  induction n generalizing k with
  | zero =>
    obtain ⟨j,hj,_⟩ := h
    exact absurd hj (Nat.not_lt_zero j)
  | succ n ih =>
    rw [doubleCapacity]
    split
    · rename_i hlt
      obtain ⟨j,hj,hn⟩ := h
      rw [doubled_succ]
      cases j with
      | zero =>
        rw [Nat.add_zero] at hn
        omega
      | succ j =>
        refine ih ⟨j,by omega,?_⟩
        rwa [Nat.add_assoc,Nat.add_comm 1 j]
    · exact ⟨_,rfl⟩

/-- From a reached capacity the loop ends exactly for the sizes that some
capacity is enough for, and then within 33 rounds. -/
theorem ends_within (h : ReachedCap M cap) :
    (Ends needed cap ↔ Doubles M needed) ∧
      (Doubles M needed ↔ ∃ c,doubleCapacity needed 64 cap=some c) := by
  obtain ⟨k,hk,hrec⟩ := h
  rw [hk] at hrec ⊢
  have hfind : Doubles M needed → ∃ c,doubleCapacity needed 64 (doubled M k)=some c := by
    rintro ⟨j,hj,hn⟩
    by_cases hjk : j≤ k
    · have hmax := hrec j hjk
      exact doubleCapacity_ends ⟨0,by omega,by rw [Nat.add_zero]; omega⟩
    · exact doubleCapacity_ends ⟨j-k,by omega,by
        have he : k+(j-k)=j := by omega
        rwa [he]⟩
  have hback : Ends needed (doubled M k) → Doubles M needed := by
    rintro ⟨n,c,hc⟩
    obtain ⟨j,_,he,hn,_⟩ := doubleCapacity_first hc
    by_cases hlow : k+j≤32
    · exact ⟨k+j,hlow,he ▸ hn⟩
    · rw [he,doubled_zero M (by omega)] at hn
      exact ⟨32,by decide,by rw [doubled_zero M (Nat.le_refl 32)]; exact hn⟩
  exact ⟨⟨hback,fun hd => ⟨64,hfind hd⟩⟩,hfind,fun ⟨c,hc⟩ => hback ⟨64,c,hc⟩⟩

/-- A growth reaches a capacity again. -/
theorem reached_grown (h : ReachedCap M pipe.cap)
    (hg : pipeEnsureCapacity env pipe needed=.enough grown) : ReachedCap M grown.cap := by
  unfold pipeEnsureCapacity at hg
  split at hg
  · injection hg with hg
    exact hg ▸ h
  · rename_i hlt
    split at hg
    · cases hg
    · rename_i c hc
      split at hg
      · injection hg with hg
        rw [←hg]
        obtain ⟨k,hk,hrec⟩ := h
        rw [hk] at hc
        obtain ⟨j,_,he,hn,hall⟩ := doubleCapacity_first hc
        refine ⟨k+j,he,fun i hi => ?_⟩
        dsimp only
        by_cases hik : i≤ k
        · have hmax := hrec i hik
          omega
        · by_cases hij : i=k+j
          · have heq : doubled M i=c := by rw [hij,he]
            exact Int.le_of_eq heq
          · have hsmall := hall (i-k) (by omega)
            have hsum : k+(i-k)=i := by omega
            rw [hsum] at hsmall
            omega
      · cases hg

/-- Every pipe of every run has a capacity that doubling has produced. -/
theorem run_reachedCap (hB : M.pipeBufferLen<2^31) (h : Reachable M s) :
    Pipes (fun pipe => ReachedCap M pipe.cap) s := by
  have hall : ∀ s env input,SwitchSucceeds s env input →
      env.switchOk=true ∧ StepAllowed M (fun _ : Label => True) s env input :=
    fun s env input hsw => ⟨hsw,fun _ _ => trivial⟩
  refine run_pipes hall ⟨fun buf stamp => ?_,fun pipe len _ _ hq => hq,
    fun env pipe grown buf len _ _ hg hq => ?_⟩ h
  rotate_left
  · have hgrown : ReachedCap M grown.cap := reached_grown hq hg
    exact hgrown
  have h0 : doubled M 0=M.pipeBufferLen := by
    unfold doubled
    rw [Int.pow_zero,Int.mul_one]
    exact wrap32_eq (by omega) (by omega)
  refine ⟨0,h0.symm,fun j hj => ?_⟩
  have hj0 : doubled M j=M.pipeBufferLen := by rw [Nat.le_zero.1 hj,h0]
  exact Int.le_of_eq hj0

/-- No power of two is above 2^30 in 32-bit arithmetic. -/
theorem wrap32_two (j : ℕ) : wrap32 (2^j)≤2^30 := by
  by_cases hj : j≤30
  · have hnat : 2^j≤2^30 := Nat.pow_le_pow_right (by decide) hj
    have hint : (2 : ℤ)^j=((2^j : ℕ) : ℤ) := (Int.natCast_pow 2 j).symm
    have h0 : (0 : ℤ)≤((2^j : ℕ) : ℤ) := Int.natCast_nonneg _
    have h1 : ((2^j : ℕ) : ℤ)≤((2^30 : ℕ) : ℤ) := Int.ofNat_le.2 hnat
    rw [hint]
    generalize ((2^j : ℕ) : ℤ)=x at h0 h1
    rw [wrap32_eq (by omega) (by omega)]
    omega
  · by_cases he : j=31
    · rw [he]
      decide
    · have hz := wrap32_pow 1 (j := j) (by omega)
      rw [Int.one_mul] at hz
      rw [hz]
      decide

/-- For a power of two the largest capacity is 2^30. -/
theorem doubles_pow {b : ℕ} (hb : b≤30) (hB : M.pipeBufferLen=2^b) :
    Doubles M needed ↔ needed≤2^30 := by
  have hval : ∀ j,doubled M j=wrap32 (2^(b+j)) := by
    intro j
    unfold doubled
    rw [hB,Int.natCast_pow,Int.pow_add]
    rfl
  constructor
  · rintro ⟨j,_,hn⟩
    rw [hval] at hn
    have hmax := wrap32_two (b+j)
    omega
  · intro hn
    refine ⟨30-b,by omega,?_⟩
    have he : b+(30-b)=30 := by omega
    rw [hval,he]
    exact hn

/-- Growing does not end exactly for the sizes above every capacity. -/
theorem ensure_diverges (h : ReachedCap M pipe.cap) :
    pipeEnsureCapacity env pipe needed=.diverges ↔ ¬Doubles M needed := by
  have hends : Doubles M needed ↔ ∃ c,doubleCapacity needed 64 pipe.cap=some c :=
    (ends_within h).2
  unfold pipeEnsureCapacity
  rw [hends]
  by_cases hle : needed≤pipe.cap
  · have hd : doubleCapacity needed 64 pipe.cap=some pipe.cap := by
      change (if pipe.cap<needed then _ else some pipe.cap)=some pipe.cap
      exact if_neg (by omega)
    rw [if_pos hle]
    exact ⟨fun hx => (by cases hx),fun hx => absurd ⟨_,hd⟩ hx⟩
  · rw [if_neg hle]
    cases hd : doubleCapacity needed 64 pipe.cap with
    | none => exact ⟨fun _ ⟨_,hc⟩ => (by cases hc),fun _ => rfl⟩
    | some c =>
      refine ⟨fun hx => ?_,fun hx => absurd ⟨c,rfl⟩ hx⟩
      dsimp only at hx
      split at hx
      · cases hx
      · cases hx

/-- A PipeWrite does not return exactly for such sizes. -/
theorem write_diverges {id : ℤ} {buf : ℕ} {u : UserContext} (h : ReachedCap M pipe.cap)
    (ho : getObject s id=.pipe pipe) (hl : 0<len) (hb : buf≠0) :
    sysPipeWrite env id buf len u s=.leaves {s with cpu := .diverged} ↔
      ¬Doubles M (wrap32 (pipe.len+len)) := by
  rw [←@ensure_diverges M env pipe _ h]
  unfold sysPipeWrite
  rw [if_neg (by omega),if_neg (by omega),ho]
  dsimp only
  cases hg : pipeEnsureCapacity env pipe (wrap32 (pipe.len+len)) with
  | enough grown => exact ⟨fun hx => (by cases hx),fun hx => (by cases hx)⟩
  | error => exact ⟨fun hx => (by cases hx),fun hx => (by cases hx)⟩
  | diverges => exact ⟨fun _ => rfl,fun _ => rfl⟩

/-- For every pipe of every run and every size, the doubling loop ends exactly
when the size is not above every capacity that doubling can produce, which is
2^30 when the first capacity is a power of two; for other sizes PipeWrite does
not return. -/
theorem run_doubling {i : ℕ} (hB : M.pipeBufferLen<2^31) (h : Reachable M s)
    (ho : s.objects i=.pipe pipe) :
    (∀ needed,Ends needed pipe.cap ↔ Doubles M needed) ∧
      (∀ env id buf len u,getObject s id=.pipe pipe → 0<len → buf≠0 →
        (sysPipeWrite env id buf len u s=.leaves {s with cpu := .diverged} ↔
          ¬Doubles M (wrap32 (pipe.len+len)))) ∧
      ∀ b needed,b≤30 → M.pipeBufferLen=2^b → (Doubles M needed ↔ needed≤2^30) := by
  have hcap := run_reachedCap hB h i pipe ho
  exact ⟨fun needed => (ends_within hcap).1,
    fun env id buf len u hg hl hb => write_diverges hcap hg hl hb,
    fun b needed hb hB => doubles_pow hb hB⟩

/-- A new pipe can grow to 2^30 bytes. -/
theorem run_doubling_sample : ∃ s pipe,Reachable sampleMachine s ∧ s.objects 0=.pipe pipe ∧
    pipe.cap=256 ∧ Ends (2^30) pipe.cap := by
  obtain ⟨s,hr,hq⟩ := replay_reachable sampleBoot_user [callInput 10 0x105000 0 0] (holdsBytes 0)
    (by decide +kernel)
  obtain ⟨pipe,ho,_,hc⟩ := of_holdsBytes hq
  have hd := run_doubling (by decide) hr ho
  exact ⟨s,pipe,hr,ho,hc,(hd.1 _).2 ((hd.2.2 8 (2^30) (by decide) rfl).2 (Int.le_refl _))⟩

/-- A write of 2^30+1 bytes to an empty pipe does not return: the doubling loop
has no end. -/
theorem write_loops : ∃ s pipe,Reachable sampleMachine s ∧ s.cpu=.user ∧
    s.objects 0=.pipe pipe ∧ pipe.len=0 ∧ ¬Ends (2^30+1) pipe.cap ∧
    (kernelStep sampleMachine (sampleEnv 0 0) s
      (callInput 12 0 0x105001 0x40000001).2).cpu=.diverged := by
  obtain ⟨s,hr,hq⟩ := replay_reachable sampleBoot_user [callInput 10 0x105000 0 0]
    (fun s => holdsBytes 0 s && decide (s.cpu=.user ∧ (kernelStep sampleMachine (sampleEnv 0 0) s
      (callInput 12 0 0x105001 0x40000001).2).cpu=.diverged)) (by decide +kernel)
  rw [Bool.and_eq_true] at hq
  obtain ⟨pipe,ho,hl,_⟩ := of_holdsBytes hq.1
  obtain ⟨hu,hstop⟩ := of_decide_eq_true hq.2
  have hcap : ReachedCap sampleMachine pipe.cap := run_reachedCap (by decide) hr 0 pipe ho
  refine ⟨s,pipe,hr,hu,ho,hl,fun he => ?_,hstop⟩
  have hle := (doubles_pow (b := 8) (by decide) rfl).1 ((ends_within hcap).1.1 he)
  omega

end Doubling

section Bounds

/-- The buffered bytes fit into the buffer. -/
structure InBounds (pipe : PipeState) : Prop where
  /-- The byte count is not negative. -/
  nonneg : 0≤pipe.len
  /-- The stored bytes fit into the buffer. -/
  fits : pipe.len≤pipe.cap
  /-- There is a buffer. -/
  room : 0<pipe.cap
  /-- Its size is a C int. -/
  size : pipe.cap<2^31

/-- The loop ends with a capacity that is enough. -/
theorem doubleCapacity_enough (h : doubleCapacity needed n cap=some c) (hc : cap<2^31) :
    needed≤ c ∧ c<2^31 := by
  induction n generalizing cap with
  | zero => cases h
  | succ n ih =>
    rw [doubleCapacity] at h
    split at h
    · exact ih h (wrap32_lt _)
    · injection h with h
      omega

/-- A growth that succeeds has the needed capacity, and the bytes stay. -/
theorem ensure_enough (hs : pipe.cap<2^31)
    (hg : pipeEnsureCapacity env pipe needed=.enough grown) :
    needed≤grown.cap ∧ grown.cap<2^31 ∧ grown.len=pipe.len := by
  unfold pipeEnsureCapacity at hg
  split at hg
  · injection hg with hg
    rw [←hg]
    exact ⟨by omega,hs,rfl⟩
  · split at hg
    · cases hg
    · rename_i c hc
      split at hg
      · injection hg with hg
        rw [←hg]
        obtain ⟨hn,hlt⟩ := doubleCapacity_enough hc hs
        exact ⟨hn,hlt,rfl⟩
      · cases hg

/-- The capacity that is promised covers the true sum exactly when the sum is a
C int. -/
theorem ensure_covers (h : InBounds pipe) (hl : 0<len) (hi : len<2^31) :
    (∀ grown,pipeEnsureCapacity env pipe (wrap32 (pipe.len+len))=.enough grown →
      pipe.len+len≤grown.cap) ↔ pipe.len+len<2^31 := by
  have h0 := h.nonneg
  have h1 := h.fits
  have h2 := h.size
  have h3 := h.room
  constructor
  · intro hall
    by_contra hge
    have hw : wrap32 (pipe.len+len)=pipe.len+len-2^32 := wrap32_overflow (by omega) (by omega)
    have hle := hall pipe (by
      unfold pipeEnsureCapacity
      exact if_pos (by omega))
    omega
  · intro hlt grown hg
    rw [wrap32_eq (by omega) hlt] at hg
    exact (ensure_enough h.size hg).1

/-- An append writes only the bytes behind the buffered ones. -/
theorem append_range {mem : ℕ → UInt8} {buf x : ℕ} (h0 : 0≤grown.len)
    (hx : (appendBytes grown mem buf len).buf x≠grown.buf x) :
    grown.len≤ x ∧ x<grown.len+len := by
  by_contra hout
  refine hx ?_
  unfold appendBytes
  dsimp only
  rw [copyBetween_apply,if_neg (by omega)]

/-- Each PipeWrite of a step asks for a sum that is a C int. -/
def SumsFit (M : Machine) (s : Kernel) : Input → Prop
  | .trap u => ∀ pipe,u.vector=.kernel → M.syscallOf u.code=.pipeWrite →
      getObject s (u.int 0)=.pipe pipe → 0<u.int 2 → pipe.len+u.int 2<2^31
  | .resume => True

/-- The labels of such steps. -/
def SumAllowed : Label → Prop
  | .put _ n len => n+len<2^31
  | _ => True

/-- Such steps have only such labels. -/
theorem sumsFit_allowed (input : Input) (h : env.switchOk=true ∧ SumsFit M s input) :
    env.switchOk=true ∧ StepAllowed M SumAllowed s env input := by
  refine ⟨h.1,fun x hx => ?_⟩
  cases hx with
  | put u pipe hv hcall ho hpos => exact h.2 pipe hv hcall ho hpos
  | _ => trivial

/-- The rules for pipes that stay in bounds. -/
theorem inBounds_rules (hB : M.pipeBufferLen<2^31) : PipeRules M SumAllowed InBounds := by
  have hpos := M.pipeBufferLen_pos
  refine ⟨fun buf stamp => ⟨?_,?_,?_,?_⟩,fun pipe len hl _ h => ?_,
    fun env pipe grown buf len hl hput hg h => ?_⟩
  · dsimp only
    omega
  · dsimp only
    omega
  · dsimp only
    omega
  · dsimp only
    omega
  · have h0 := h.nonneg
    have h1 := h.fits
    have hcount : readCount pipe len≤pipe.len ∧ 0≤ readCount pipe len := by
      unfold readCount
      split <;> omega
    refine ⟨?_,?_,h.room,h.size⟩
    · change 0≤pipe.len-readCount pipe len
      omega
    · change pipe.len-readCount pipe len≤pipe.cap
      omega
  · have h0 := h.nonneg
    have hsum : pipe.len+len<2^31 := hput
    rw [wrap32_eq (by omega) hsum] at hg
    obtain ⟨hn,hlt,hlen⟩ := ensure_enough h.size hg
    have hnew : (appendBytes grown env.mem buf len).len=pipe.len+len := by
      change wrap32 (grown.len+len)=pipe.len+len
      rw [hlen]
      exact wrap32_eq (by omega) hsum
    refine ⟨?_,?_,?_,hlt⟩
    · rw [hnew]
      omega
    · rw [hnew]
      exact hn
    · change 0<grown.cap
      omega

/-- In every run whose writes ask for sums that are C ints, every pipe stays in
bounds, and every write that is served stays below the capacity. For any pipe
in bounds and any length, the promised capacity covers the true sum exactly
when the sum is a C int. -/
theorem run_inBounds {i : ℕ} (hB : M.pipeBufferLen<2^31)
    (h : Run M (fun _ => True) (fun s env input => env.switchOk=true ∧ SumsFit M s input) s)
    (ho : s.objects i=.pipe pipe) :
    0≤pipe.len ∧ pipe.len≤pipe.cap ∧ ∀ env len,0<len → len<2^31 →
      ((∀ grown,pipeEnsureCapacity env pipe (wrap32 (pipe.len+len))=.enough grown →
          pipe.len+len≤grown.cap) ↔ pipe.len+len<2^31) ∧
        (pipe.len+len<2^31 → ∀ grown buf x,
          pipeEnsureCapacity env pipe (wrap32 (pipe.len+len))=.enough grown →
          (appendBytes grown env.mem buf len).buf x≠grown.buf x →
            pipe.len≤ x ∧ x<pipe.len+len ∧ (x : ℤ)<grown.cap) := by
  have hb : InBounds pipe := run_pipes (fun _ _ input hok => sumsFit_allowed input hok)
    (inBounds_rules hB) h i pipe ho
  refine ⟨hb.nonneg,hb.fits,fun env len hl hi => ?_⟩
  have hcov := @ensure_covers env pipe len hb hl hi
  refine ⟨hcov,fun hsum grown buf x hg hx => ?_⟩
  have hle := hcov.2 hsum grown hg
  have hlen := (ensure_enough hb.size hg).2.2
  have hrange := append_range (by rw [hlen]; exact hb.nonneg) hx
  omega

/-- A test that the sum of a write is a C int. -/
def sumTest (s : Kernel) (env : Env) : Input → Bool
  | .trap u =>
    match getObject s (u.int 0) with
    | .pipe pipe => env.switchOk && decide (pipe.len+u.int 2<2^31)
    | _ => env.switchOk
  | .resume => env.switchOk

/-- A step that passes the test keeps the sum in range. -/
theorem sumTest_sound (s : Kernel) (env : Env) (input : Input) (h : sumTest s env input=true) :
    env.switchOk=true ∧ SumsFit M s input := by
  cases input with
  | resume => exact ⟨h,trivial⟩
  | trap u =>
    dsimp only [sumTest] at h
    dsimp only [SumsFit]
    cases ho : getObject s (u.int 0) with
    | pipe pipe =>
      rw [ho] at h
      have hb := (Bool.and_eq_true _ _).mp h
      refine ⟨hb.1,fun pipe' _ _ he _ => ?_⟩
      injection he with he
      rw [←he]
      exact of_decide_eq_true hb.2
    | free => rw [ho] at h; exact ⟨h,fun _ _ _ he => (by cases he)⟩
    | lock l => rw [ho] at h; exact ⟨h,fun _ _ _ he => (by cases he)⟩
    | cvar c => rw [ho] at h; exact ⟨h,fun _ _ _ he => (by cases he)⟩

/-- A pipe with six bytes is in bounds. -/
theorem run_inBounds_sample : ∃ s pipe,Run sampleMachine (fun _ => True)
      (fun s env input => env.switchOk=true ∧ SumsFit sampleMachine s input) s ∧
    s.objects 0=.pipe pipe ∧ pipe.len=6 ∧ pipe.len≤pipe.cap := by
  obtain ⟨s,hr,hq⟩ := replay_exists (fun _ => True) (sumTest_sound (M := sampleMachine)) trivial
    sampleBoot_user [callInput 10 0x105000 0 0,callInput 12 0 0x105001 6] (holdsBytes 6)
    (by decide +kernel)
  obtain ⟨pipe,ho,hl,_⟩ := of_holdsBytes hq
  exact ⟨s,pipe,hr,ho,hl,(run_inBounds (by decide) hr ho).2.1⟩

/-- With one byte buffered, PipeEnsureCapacity finds the buffer of 256 bytes large
enough for a write of 2^31-1 bytes. -/
theorem write_overflows : ∃ s pipe,Reachable sampleMachine s ∧ s.objects 0=.pipe pipe ∧
    pipe.len=1 ∧ pipe.cap=256 ∧ pipe.cap<pipe.len+0x7fffffff ∧
    pipeEnsureCapacity (sampleEnv 0 0) pipe (wrap32 (pipe.len+0x7fffffff))=.enough pipe := by
  obtain ⟨s,hr,hq⟩ := replay_reachable sampleBoot_user
    [callInput 10 0x105000 0 0,callInput 12 0 0x105001 1] (holdsBytes 1) (by decide +kernel)
  obtain ⟨pipe,ho,hl,hc⟩ := of_holdsBytes hq
  have hw : wrap32 (pipe.len+0x7fffffff)=pipe.len+0x7fffffff-2^32 :=
    wrap32_overflow (by omega) (by omega)
  refine ⟨s,pipe,hr,ho,hl,hc,by omega,?_⟩
  unfold pipeEnsureCapacity
  exact if_pos (by omega)

end Bounds

section Copies

/-- A memcpy with its destination, its source and its length. -/
structure Copy where
  /-- The address to which the bytes are copied. -/
  dst : ℕ
  /-- The address from which the bytes are copied. -/
  src : ℕ
  /-- The number of bytes that are copied. -/
  n : ℕ

/-- Its ranges do not overlap. -/
def Copy.Apart (c : Copy) : Prop := ∀ x,c.dst≤x → x< c.dst+c.n → ¬(c.src≤x ∧ x< c.src+c.n)

/-- Ranges of a positive length are apart when one ends before the other. -/
theorem apart_iff {c : Copy} (hn : 0< c.n) :
    c.Apart ↔ c.dst+c.n≤ c.src ∨ c.src+c.n≤ c.dst := by
  unfold Copy.Apart
  constructor
  · intro h
    have hd := h c.dst (Nat.le_refl _) (by omega)
    have hs := h c.src
    omega
  · intro h x h₁ h₂ h₃
    omega

/-- The copies of SysPipeRead within the buffer at an address, behind the one
to the reader: the rest is moved to the front. -/
def readCopies (addr : ℕ) (pipe : PipeState) (len : ℤ) : List Copy :=
  if 0<pipe.len-readCount pipe len then
    [⟨addr,addr+(readCount pipe len).toNat,(pipe.len-readCount pipe len).toNat⟩]
  else []

/-- The copies of PipeEnsureCapacity from the buffer at an address to the new
one at the address fresh. -/
def growCopies (env : Env) (addr fresh : ℕ) (pipe : PipeState) (needed : ℤ) : List Copy :=
  if needed≤pipe.cap then []
  else match doubleCapacity needed 64 pipe.cap with
    | none => []
    | some _ => if env.malloc 0=true then [⟨fresh,addr,pipe.len.toNat⟩] else []

/-- What malloc promises: a new block of a size lies apart from the block in
use. -/
def Fresh (addr fresh : ℕ) (cap size : ℤ) : Prop :=
  ∀ x : ℕ,addr≤x → (x : ℤ)<addr+cap → ¬(fresh≤x ∧ (x : ℤ)<fresh+size)

/-- The model's read moves the bytes of these copies. -/
theorem consume_copies (pipe : PipeState) (len : ℤ) :
    (consumeBytes pipe (readCount pipe len)).buf=
      (readCopies 0 pipe len).foldl (fun b c => copyWithin c.dst c.src c.n b) pipe.buf := by
  unfold consumeBytes readCopies
  dsimp only
  by_cases hp : 0<pipe.len-readCount pipe len
  · rw [if_pos hp,if_pos hp,Nat.zero_add]
    rfl
  · rw [if_neg hp,if_neg hp]
    rfl

/-- The model's growth fills the new buffer by these copies. -/
theorem grow_copies (hg : pipeEnsureCapacity env pipe needed=.enough grown) :
    grown.buf=if needed≤pipe.cap then pipe.buf
      else (growCopies env 0 0 pipe needed).foldl
        (fun b c => copyBetween pipe.buf c.dst c.src c.n b) env.junk := by
  unfold pipeEnsureCapacity at hg
  unfold growCopies
  by_cases hle : needed≤pipe.cap
  · rw [if_pos hle] at hg ⊢
    injection hg with hg
    rw [hg]
  · rw [if_neg hle] at hg ⊢
    rw [if_neg hle]
    cases hd : doubleCapacity needed 64 pipe.cap with
    | none =>
      rw [hd] at hg
      cases hg
    | some size =>
      rw [hd] at hg
      dsimp only at hg ⊢
      by_cases hm : env.malloc 0=true
      · rw [if_pos hm] at hg ⊢
        injection hg with hg
        rw [←hg]
        rfl
      · rw [if_neg hm] at hg
        cases hg

/-- The compaction gets disjoint ranges exactly when at least half of the
buffered bytes are read. -/
theorem readCopies_apart (addr : ℕ) (pipe : PipeState) (hl : 0<len) :
    (∀ c∈readCopies addr pipe len,c.Apart) ↔ pipe.len≤2*len := by
  unfold readCopies
  split
  · rename_i hp
    rw [List.forall_mem_singleton,apart_iff (by dsimp only; omega)]
    dsimp only
    unfold readCount at hp ⊢
    split at hp
    · rename_i hlt
      rw [if_pos hlt]
      omega
    · omega
  · rename_i hp
    unfold readCount at hp
    split at hp
    · omega
    · exact ⟨fun _ => by omega,fun _ c hc => (by cases hc)⟩

/-- The growth gets disjoint ranges. -/
theorem growCopies_apart {addr fresh : ℕ} (h : InBounds pipe)
    (hf : ∀ c,doubleCapacity needed 64 pipe.cap=some c → Fresh addr fresh pipe.cap c) :
    ∀ c∈growCopies env addr fresh pipe needed,c.Apart := by
  have h0 := h.nonneg
  have h1 := h.fits
  unfold growCopies
  split
  · exact fun c hc => (by cases hc)
  · rename_i hlt
    split
    · exact fun c hc => (by cases hc)
    · rename_i size hs
      split
      · obtain ⟨hn,_⟩ := doubleCapacity_enough hs h.size
        have hfresh := hf size hs
        rw [List.forall_mem_singleton]
        intro x h₁ h₂ h₃
        dsimp only at h₁ h₂ h₃
        exact hfresh x h₃.1 (by omega) ⟨h₁,by omega⟩
      · exact fun c hc => (by cases hc)

/-- In every run whose writes ask for sums that are C ints, wherever the buffers
lie: a read of a pipe copies within its buffer between disjoint ranges exactly
when it takes at least half of the buffered bytes, and a write always does, when
malloc returns blocks apart from those in use. -/
theorem run_copies {i : ℕ} (hB : M.pipeBufferLen<2^31)
    (h : Run M (fun _ => True) (fun s env input => env.switchOk=true ∧ SumsFit M s input) s)
    (ho : s.objects i=.pipe pipe) (addr : ℕ) :
    (∀ len,0<len → ((∀ c∈readCopies addr pipe len,c.Apart) ↔ pipe.len≤2*len)) ∧
      ∀ env len fresh,0<len → (∀ c,doubleCapacity (wrap32 (pipe.len+len)) 64 pipe.cap=some c →
          Fresh addr fresh pipe.cap c) →
        ∀ c∈growCopies env addr fresh pipe (wrap32 (pipe.len+len)),c.Apart := by
  have hb : InBounds pipe := run_pipes (fun _ _ input hok => sumsFit_allowed input hok)
    (inBounds_rules hB) h i pipe ho
  exact ⟨fun len hl => readCopies_apart addr pipe hl,
    fun env len fresh _ hf => growCopies_apart hb hf⟩

/-- Of six bytes three can be read, and three hundred more be written to a
buffer that malloc places behind the old one. -/
theorem run_copies_sample : ∃ s pipe,Run sampleMachine (fun _ => True)
      (fun s env input => env.switchOk=true ∧ SumsFit sampleMachine s input) s ∧
    s.objects 0=.pipe pipe ∧ pipe.len=6 ∧ (∀ c∈readCopies 0x1000 pipe 3,c.Apart) ∧
    ∀ c∈growCopies (sampleEnv 0 0) 0x1000 0x2000 pipe (wrap32 (pipe.len+300)),c.Apart := by
  obtain ⟨s,hr,hq⟩ := replay_exists (fun _ => True) (sumTest_sound (M := sampleMachine)) trivial
    sampleBoot_user [callInput 10 0x105000 0 0,callInput 12 0 0x105001 6] (holdsBytes 6)
    (by decide +kernel)
  obtain ⟨pipe,ho,hl,hc⟩ := of_holdsBytes hq
  obtain ⟨hread,hgrow⟩ := run_copies (by decide) hr ho 0x1000
  refine ⟨s,pipe,hr,ho,hl,(hread 3 (by decide)).2 (by omega),
    hgrow (sampleEnv 0 0) 300 0x2000 (by decide) (fun c _ => ?_)⟩
  rw [hc]
  intro x h₁ h₂ h₃
  omega

/-- A read of two of six bytes moves four bytes by two: the ranges overlap. -/
theorem read_overlaps : ∃ s pipe,Reachable sampleMachine s ∧ s.objects 0=.pipe pipe ∧
    pipe.len=6 ∧ (∃ c∈readCopies 0 pipe 2,¬c.Apart) ∧
    holdsBytes 4 (kernelStep sampleMachine (sampleEnv 0 0) s
    (callInput 11 0 0x105001 2).2)=true := by
  obtain ⟨s,hr,hq⟩ := replay_reachable sampleBoot_user
    [callInput 10 0x105000 0 0,callInput 12 0 0x105001 6]
    (fun s => holdsBytes 6 s && holdsBytes 4 (kernelStep sampleMachine (sampleEnv 0 0) s
      (callInput 11 0 0x105001 2).2)) (by decide +kernel)
  rw [Bool.and_eq_true] at hq
  obtain ⟨pipe,ho,hl,_⟩ := of_holdsBytes hq.1
  refine ⟨s,pipe,hr,ho,hl,?_,hq.2⟩
  have hcount : readCount pipe 2=2 := by
    unfold readCount
    exact if_pos (by omega)
  have hlist : readCopies 0 pipe 2=[⟨0,2,4⟩] := by
    unfold readCopies
    rw [hcount,hl]
    rfl
  refine ⟨⟨0,2,4⟩,by rw [hlist]; exact List.mem_singleton.2 rfl,fun ha => ?_⟩
  rw [apart_iff (by decide)] at ha
  dsimp only at ha
  omega

end Copies

end Yalnix.PipeBuffers
