import Mathlib.Data.List.Nodup
import Yalnix.History
import Yalnix.Traces

/-!
# Delivery of exit statuses

Processes are named by their creation stamps, since control blocks and
identifiers are used again. Every process exits at most once, every report of
Wait names a child of the caller that has exited, with its status, and no
child is reported twice.
-/

namespace Yalnix.ExitStatuses

open Framework FrameTable KernelState Scheduling Ipc Terminals ProcessLifetime ProgramLoading
open Syscalls Traps KernelStart Coherence Operations OperationCoherence CallOperations
open RunInvariants History Traces

variable {M : Machine} {allow : Label → Prop} {s t : Kernel} {live : PcbPtr → Bool}
  {state : PcbPtr → ProcState} {pid : PcbPtr → ℤ} {parent : PcbPtr → PcbPtr} {birth : PcbPtr → ℕ}
  {exitStatus : PcbPtr → ℤ} {stamp stamp' : ℕ} {log l : List Event} {p c w : PcbPtr}

/-- The process whose exit an event records. -/
def exitedBy : Event → List ℕ
  | .exited _ birth _ _ => [birth]
  | _ => []

/-- The child that an event reports. -/
def waitedBy : Event → List ℕ
  | .waited _ child _ _ => [child]
  | _ => []

/-- A report is of a child that was forked by the caller with that identifier
and has exited with that status. -/
def Reported (past : List Event) : Event → Prop
  | .waited parent child pid status =>
    .forked parent child pid∈past ∧ ∃ p r,.exited p child r status∈past
  | _ => True

/-- Events that are neither exits nor reports. -/
def Unrelated : Event → Prop
  | .exited _ _ _ _ => False
  | .waited _ _ _ _ => False
  | _ => True

/-- The recorded ends and reports agree with the processes. -/
structure LineageOk (live : PcbPtr → Bool) (state : PcbPtr → ProcState) (pid : PcbPtr → ℤ)
    (parent : PcbPtr → PcbPtr) (birth : PcbPtr → ℕ) (exitStatus : PcbPtr → ℤ) (stamp : ℕ)
    (log : List Event) : Prop where
  /-- Creation stamps have been used. -/
  born : ∀ p,live p=true → birth p< stamp
  /-- Processes have different creation stamps. -/
  identity : ∀ p p',live p=true → live p'=true → birth p=birth p' → p=p'
  /-- A child was forked by its parent and has an identifier. -/
  forked : ∀ c,live c=true → parent c≠0 →
    .forked (birth (parent c)) (birth c) (pid c)∈log ∧ pid c≠ERROR
  /-- A zombie has exited with its status. -/
  ended : ∀ p,live p=true → state p=.zombie → ∃ r,.exited p (birth p) r (exitStatus p)∈log
  /-- Nobody else has exited. -/
  running : ∀ p,live p=true → state p≠.zombie → birth p∉log.flatMap exitedBy
  /-- No existing process has been reported. -/
  alive : ∀ p,live p=true → birth p∉log.flatMap waitedBy
  /-- Recorded stamps have been used. -/
  past : ∀ n,n∈log.flatMap exitedBy ∨ n∈log.flatMap waitedBy → n< stamp
  /-- No process exits twice. -/
  exitedOnce : (log.flatMap exitedBy).Nodup
  /-- No child is reported twice. -/
  waitedOnce : (log.flatMap waitedBy).Nodup
  /-- Every reported status was left by a child that had ended. -/
  reported : Grounded Reported log

/-- Unrelated events record neither exits nor reports. -/
theorem unrelated_nil (h : ∀ e∈l,Unrelated e) :
    l.flatMap exitedBy=[] ∧ l.flatMap waitedBy=[] := by
  refine ⟨List.flatMap_eq_nil_iff.2 fun e he => ?_,List.flatMap_eq_nil_iff.2 fun e he => ?_⟩
  · have hq := h e he
    cases e with
    | exited p b r st => exact hq.elim
    | _ => rfl
  · have hq := h e he
    cases e with
    | waited pb cb n st => exact hq.elim
    | _ => rfl

/-- Events that are neither ends nor reports keep the lineage. -/
theorem LineageOk.other (h : LineageOk live state pid parent birth exitStatus stamp log)
    (hl : ∀ e∈l,Unrelated e) :
    LineageOk live state pid parent birth exitStatus stamp (log++l) := by
  obtain ⟨he,hw⟩ := unrelated_nil hl
  have hex : (log++l).flatMap exitedBy=log.flatMap exitedBy := by
    rw [List.flatMap_append,he,List.append_nil]
  have hwa : (log++l).flatMap waitedBy=log.flatMap waitedBy := by
    rw [List.flatMap_append,hw,List.append_nil]
  refine {
    born := h.born
    identity := h.identity
    forked := fun c hc hp => ⟨List.mem_append_left _ (h.forked c hc hp).1,(h.forked c hc hp).2⟩
    ended := fun p hp hz => ?_
    running := fun p hp hz => (by rw [hex]; exact h.running p hp hz)
    alive := fun p hp => (by rw [hwa]; exact h.alive p hp)
    past := fun n hn => (by rw [hex,hwa] at hn; exact h.past n hn)
    exitedOnce := (by rw [hex]; exact h.exitedOnce)
    waitedOnce := (by rw [hwa]; exact h.waitedOnce)
    reported := h.reported.other (fun e he past => ?_)}
  · obtain ⟨r,hr⟩ := h.ended p hp hz
    exact ⟨r,List.mem_append_left _ hr⟩
  · have hu := hl e he
    cases e with
    | waited pb cb n st => exact hu.elim
    | _ => trivial

/-- The state of a process changes that has not ended and does not end. -/
theorem LineageOk.setState {a : ProcState}
    (h : LineageOk live state pid parent birth exitStatus stamp log) (hw : state w≠.zombie)
    (ha : a≠.zombie) :
    LineageOk live (Function.update state w a) pid parent birth exitStatus stamp log :=
  {h with
    ended := fun p hp hz => by
      by_cases he : p=w
      · rw [he,Function.update_self] at hz
        exact absurd hz ha
      · rw [Function.update_of_ne he] at hz
        exact h.ended p hp hz
    running := fun p hp hz => by
      by_cases he : p=w
      · rw [he] at hp ⊢
        exact h.running w hp hw
      · rw [Function.update_of_ne he] at hz
        exact h.running p hp hz}

/-- A stamp is used for something else. -/
theorem LineageOk.setStamp (h : LineageOk live state pid parent birth exitStatus stamp log)
    (hs : stamp≤ stamp') : LineageOk live state pid parent birth exitStatus stamp' log :=
  {h with
    born := fun p hp => lt_of_lt_of_le (h.born p hp) hs
    past := fun n hn => lt_of_lt_of_le (h.past n hn) hs}

/-- A child that is orphaned keeps its record and has no parent. -/
theorem LineageOk.orphan (h : LineageOk live state pid parent birth exitStatus stamp log) :
    LineageOk live state pid (Function.update parent c 0) birth exitStatus stamp log :=
  {h with
    forked := fun x hx hp => by
      by_cases he : x=c
      · rw [he,Function.update_self] at hp
        exact absurd rfl hp
      · rw [Function.update_of_ne he] at hp ⊢
        exact h.forked x hx hp}

/-- The end of a process is recorded with its parent and its status. -/
theorem LineageOk.exit (h : LineageOk live state pid parent birth exitStatus stamp log)
    (hl : live p=true) (hz : state p≠.zombie) (status : ℤ) (r : PcbPtr) :
    LineageOk live (Function.update state p .zombie) pid parent birth
      (Function.update exitStatus p status) stamp (log++[.exited p (birth p) r status]) := by
  have hex : (log++[Event.exited p (birth p) r status]).flatMap exitedBy=
      log.flatMap exitedBy++[birth p] := by
    rw [List.flatMap_append]
    rfl
  have hwa : (log++[Event.exited p (birth p) r status]).flatMap waitedBy=log.flatMap waitedBy := by
    rw [List.flatMap_append]
    exact List.append_nil _
  refine {
    born := h.born
    identity := h.identity
    forked := fun c hc hp => ⟨List.mem_append_left _ (h.forked c hc hp).1,(h.forked c hc hp).2⟩
    ended := fun x hx hxz => ?_
    running := fun x hx hxz => ?_
    alive := fun x hx => (by rw [hwa]; exact h.alive x hx)
    past := fun n hn => ?_
    exitedOnce := ?_
    waitedOnce := (by rw [hwa]; exact h.waitedOnce)
    reported := h.reported.record trivial}
  · by_cases he : x=p
    · rw [he,Function.update_self]
      exact ⟨r,by simp⟩
    · rw [Function.update_of_ne he] at hxz ⊢
      obtain ⟨r',hr'⟩ := h.ended x hx hxz
      exact ⟨r',List.mem_append_left _ hr'⟩
  · by_cases he : x=p
    · rw [he,Function.update_self] at hxz
      exact absurd rfl hxz
    · rw [Function.update_of_ne he] at hxz
      rw [hex,List.mem_append,List.mem_singleton]
      rintro (hm|hm)
      · exact h.running x hx hxz hm
      · exact he (h.identity x p hx hl hm)
  · rw [hex,hwa,List.mem_append,List.mem_singleton] at hn
    rcases hn with (hn|hn)|hn
    · exact h.past n (.inl hn)
    · rw [hn]
      exact h.born p hl
    · exact h.past n (.inr hn)
  · rw [hex]
    refine List.nodup_append'.2 ⟨h.exitedOnce,List.nodup_singleton _,?_⟩
    rw [List.disjoint_singleton]
    exact h.running p hl hz

/-- A zombie is reported to its parent and dies. -/
theorem LineageOk.report (h : LineageOk live state pid parent birth exitStatus stamp log)
    (hl : live c=true) (hp : parent c=p) (hp0 : p≠0) (hz : state c=.zombie) :
    LineageOk (Function.update live c false) state pid parent birth exitStatus stamp
      (log++[.waited (birth p) (birth c) (pid c) (exitStatus c)]) := by
  have hex : (log++[Event.waited (birth p) (birth c) (pid c) (exitStatus c)]).flatMap exitedBy=
      log.flatMap exitedBy := by
    rw [List.flatMap_append]
    exact List.append_nil _
  have hwa : (log++[Event.waited (birth p) (birth c) (pid c) (exitStatus c)]).flatMap waitedBy=
      log.flatMap waitedBy++[birth c] := by
    rw [List.flatMap_append]
    rfl
  have hlive : ∀ x,Function.update live c false x=true → live x=true ∧ x≠c := by
    intro x hx
    by_cases he : x=c
    · rw [he,Function.update_self] at hx
      cases hx
    · rw [Function.update_of_ne he] at hx
      exact ⟨hx,he⟩
  refine {
    born := fun x hx => h.born x (hlive x hx).1
    identity := fun x x' hx hx' => h.identity x x' (hlive x hx).1 (hlive x' hx').1
    forked := fun x hx hxp => ?_
    ended := fun x hx hxz => ?_
    running := fun x hx hxz => (by rw [hex]; exact h.running x (hlive x hx).1 hxz)
    alive := fun x hx => ?_
    past := fun n hn => ?_
    exitedOnce := (by rw [hex]; exact h.exitedOnce)
    waitedOnce := ?_
    reported := h.reported.record ?_}
  · obtain ⟨hf,hn⟩ := h.forked x (hlive x hx).1 hxp
    exact ⟨List.mem_append_left _ hf,hn⟩
  · obtain ⟨r,hr⟩ := h.ended x (hlive x hx).1 hxz
    exact ⟨r,List.mem_append_left _ hr⟩
  · rw [hwa,List.mem_append,List.mem_singleton]
    rintro (hm|hm)
    · exact h.alive x (hlive x hx).1 hm
    · exact (hlive x hx).2 (h.identity x c (hlive x hx).1 hl hm)
  · rw [hex,hwa,List.mem_append,List.mem_singleton] at hn
    rcases hn with hn|hn|hn
    · exact h.past n (.inl hn)
    · exact h.past n (.inr hn)
    · rw [hn]
      exact h.born c hl
  · rw [hwa]
    refine List.nodup_append'.2 ⟨h.waitedOnce,List.nodup_singleton _,?_⟩
    rw [List.disjoint_singleton]
    exact h.alive c hl
  · obtain ⟨hf,_⟩ := h.forked c hl (by rw [hp]; exact hp0)
    obtain ⟨r,hr⟩ := h.ended c hl hz
    rw [hp] at hf
    exact ⟨hf,c,r,hr⟩

/-- The fields of a block that is not in use do not matter. -/
theorem LineageOk.unused {n st : ℤ} {a : ProcState} {d : ℕ}
    (h : LineageOk live state pid parent birth exitStatus stamp log) (hc : live c=false)
    (hp : ∀ x,live x=true → parent x≠0 → live (parent x)=true) :
    LineageOk live (Function.update state c a) (Function.update pid c n)
      (Function.update parent c p) (Function.update birth c d) (Function.update exitStatus c st)
      stamp log := by
  have hne : ∀ x,live x=true → x≠c := by
    rintro x hx rfl
    rw [hc] at hx
    cases hx
  exact {
    born := fun x hx => (by rw [Function.update_of_ne (hne x hx)]; exact h.born x hx)
    identity := fun x x' hx hx' hb => (by
      rw [Function.update_of_ne (hne x hx),Function.update_of_ne (hne x' hx')] at hb
      exact h.identity x x' hx hx' hb)
    forked := fun x hx hxp => (by
      rw [Function.update_of_ne (hne x hx)] at hxp
      rw [Function.update_of_ne (hne x hx),Function.update_of_ne (hne x hx),
        Function.update_of_ne (hne x hx),Function.update_of_ne (hne _ (hp x hx hxp))]
      exact h.forked x hx hxp)
    ended := fun x hx hxz => (by
      rw [Function.update_of_ne (hne x hx)] at hxz
      rw [Function.update_of_ne (hne x hx),Function.update_of_ne (hne x hx)]
      exact h.ended x hx hxz)
    running := fun x hx hxz => (by
      rw [Function.update_of_ne (hne x hx)] at hxz ⊢
      exact h.running x hx hxz)
    alive := fun x hx => (by rw [Function.update_of_ne (hne x hx)]; exact h.alive x hx)
    past := h.past
    exitedOnce := h.exitedOnce
    waitedOnce := h.waitedOnce
    reported := h.reported}

/-- A forked child has a record of its own with a new stamp. -/
theorem LineageOk.fork {n : ℤ} (h : LineageOk live state pid parent birth exitStatus stamp log)
    (hc : live c=false) (hp : ∀ x,live x=true → parent x≠0 → live (parent x)=true)
    (hl : live p=true) (hn : n≠ERROR) :
    LineageOk (Function.update live c true) (Function.update state c .ready)
      (Function.update pid c n) (Function.update parent c p) (Function.update birth c stamp)
      (Function.update exitStatus c 0) (stamp+1) (log++[.forked (birth p) stamp n]) := by
  have hu : LineageOk live (Function.update state c .ready) (Function.update pid c n)
      (Function.update parent c p) (Function.update birth c stamp) (Function.update exitStatus c 0)
      stamp log := h.unused hc hp
  have ho := (hu.setStamp (Nat.le_succ stamp)).other (l := [.forked (birth p) stamp n])
    (by simp [Unrelated])
  have hex : (log++[Event.forked (birth p) stamp n]).flatMap exitedBy=log.flatMap exitedBy := by
    rw [List.flatMap_append]
    exact List.append_nil _
  have hwa : (log++[Event.forked (birth p) stamp n]).flatMap waitedBy=log.flatMap waitedBy := by
    rw [List.flatMap_append]
    exact List.append_nil _
  have hpc : p≠c := by
    rintro rfl
    rw [hc] at hl
    cases hl
  have hlive : ∀ x,Function.update live c true x=true → x=c ∨ live x=true := by
    intro x hx
    by_cases he : x=c
    · exact .inl he
    · rw [Function.update_of_ne he] at hx
      exact .inr hx
  refine {ho with
    born := fun x hx => ?_
    identity := fun x x' hx hx' hb => ?_
    forked := fun x hx hxp => ?_
    ended := fun x hx hxz => ?_
    running := fun x hx hxz => ?_
    alive := fun x hx => ?_}
  · rcases hlive x hx with rfl|hx
    · rw [Function.update_self]
      exact Nat.lt_succ_self stamp
    · exact ho.born x hx
  · rcases hlive x hx with rfl|hxl
    · rcases hlive x' hx' with rfl|hx'
      · rfl
      · rw [Function.update_self] at hb
        exact absurd hb (Nat.ne_of_gt (hu.born x' hx'))
    · rcases hlive x' hx' with rfl|hx'
      · rw [Function.update_self] at hb
        exact absurd hb (Nat.ne_of_lt (hu.born x hxl))
      · exact ho.identity x x' hxl hx' hb
  · rcases hlive x hx with rfl|hx
    · rw [Function.update_self,Function.update_self,Function.update_self,Function.update_of_ne hpc]
      exact ⟨by simp,hn⟩
    · exact ho.forked x hx hxp
  · rcases hlive x hx with rfl|hx
    · rw [Function.update_self] at hxz
      cases hxz
    · exact ho.ended x hx hxz
  · rcases hlive x hx with rfl|hx
    · rw [Function.update_self]
      intro hm
      rw [hex] at hm
      exact absurd (h.past stamp (.inl hm)) (Nat.lt_irrefl stamp)
    · exact ho.running x hx hxz
  · rcases hlive x hx with rfl|hx
    · rw [Function.update_self]
      intro hm
      rw [hwa] at hm
      exact absurd (h.past stamp (.inr hm)) (Nat.lt_irrefl stamp)
    · exact ho.alive x hx

/-- The records of a state. -/
abbrev Lineage (s : Kernel) : Prop :=
  LineageOk s.live s.state s.pid s.parent s.birth s.exitStatus s.stamp s.log

/-- A blocked process has not ended. -/
theorem blocked_not_zombie (h : s.state w=.blocked) : s.state w≠.zombie := by
  rw [h]
  decide

/-- A process is made ready behind unrelated events. -/
theorem lineage_wake (h : Lineage s) (hw : s.state w≠.zombie) (hl : ∀ e∈l,Unrelated e) :
    LineageOk s.live (Function.update s.state w .ready) s.pid s.parent s.birth s.exitStatus s.stamp
      (s.log++l++[.linked w]) :=
  ((h.setState hw (by decide)).other hl).other (by simp [Unrelated])

/-- The parent of a live process is live. -/
theorem live_parent (hc : Coherent M s) (p : PcbPtr) (hl : s.live p=true) (hp : s.parent p≠0) :
    s.live (s.parent p)=true :=
  (hc.family.parent_child p hl hp).1

/-- The process that is picked has not ended. -/
theorem dispatch_lineage {env : Env} (hc : Coherent M s) (hs : env.switchOk=true)
    (h : Lineage s) : Lineage (dispatchNext M env s) := by
  have he := dispatchNext_eq hc hs
  rw [he]
  refine LineageOk.other ?_ (by simp [Unrelated])
  dsimp only
  split
  · exact h
  · refine h.setState ?_ (by decide)
    rcases nextProcess_cases hc with ⟨_,hn⟩|⟨rest,hr⟩
    · rw [hn,hc.ready.idle_running]
      decide
    · rw [(hc.ready.mem _ (by rw [hr]; simp)).2.2]
      decide

/-- A child that is destroyed before it has run is not one of the family. -/
theorem undone_lineage {env : Env} {c : PcbPtr} {n : ℤ} {pfns : ℕ → ℕ} {pt : PageTable}
    {m : Memory} {u : UserContext} (hc : Coherent M s) (h : Lineage s)
    (hcp : callocPcb env s=some c) :
    Lineage (processDestroy M c
      ((enterChild M s.currentProcess c n pfns pt m s).setUserContext c u)) := by
  obtain ⟨h0,hl⟩ := callocPcb_fresh hcp
  have hlive : Function.update (Function.update s.live c true) c false=s.live := by
    rw [Function.update_idem,Function.update_eq_self_iff]
    exact hl.symm
  rw [destroyed_child hc h0 hl]
  have hu : LineageOk s.live (Function.update s.state c .ready)
      (Function.update s.pid c n) (Function.update s.parent c s.currentProcess)
      (Function.update s.birth c s.stamp) (Function.update s.exitStatus c 0) (s.stamp+1) s.log :=
    (h.unused hl (live_parent hc)).setStamp (Nat.le_succ s.stamp)
  rw [←hlive] at hu
  exact hu

/-- The end of a process is noted with its parent, which is made ready. -/
theorem zombieWake_lineage {status : ℤ} {k : KernelContext} {m : Memory} {v : UserSpace}
    (hc : Coherent M s) (h : Lineage s) (hb : MayBlock s) (hp : s.parent s.currentProcess≠0)
    (hw : s.waitingForChild (s.parent s.currentProcess)=true) : Lineage (markReady {s with
      exitStatus := Function.update s.exitStatus s.currentProcess status
      state := Function.update s.state s.currentProcess .zombie
      kernelContext := Function.update s.kernelContext s.currentProcess k
      waitingForChild := Function.update s.waitingForChild (s.parent s.currentProcess) false
      memory := m
      space := Function.update s.space s.currentProcess v
      log := s.log++[.exited s.currentProcess (s.birth s.currentProcess)
          (s.parent s.currentProcess) status,
        .woken (s.parent s.currentProcess) (.child s.currentProcess)]}
      (s.parent s.currentProcess)) := by
  have hblocked := hc.block.reasons.blocked _ .child (live_parent hc _ hc.ready.current_live hp) hw
  have hne : s.parent s.currentProcess≠s.currentProcess := by
    intro he
    rw [he] at hblocked
    exact hb.toRunnable.not_blocked hblocked
  have h₁ := (h.exit hc.ready.current_live hb.toRunnable.not_zombie status
    (s.parent s.currentProcess)).other
      (l := [.woken (s.parent s.currentProcess) (.child s.currentProcess)]) (by simp [Unrelated])
  rw [List.append_assoc] at h₁
  refine (h₁.setState ?_ (by decide)).other (by simp [Unrelated])
  rw [Function.update_of_ne hne]
  exact blocked_not_zombie hblocked

/-- The status that Wait reports is the one that the child has left. -/
theorem collect_lineage {c : PcbPtr} (statusPtr : ℕ) (hc : Coherent M s) (h : Lineage s)
    (ha : Active s) (hch : c∈s.children s.currentProcess) (hz : s.state c=.zombie) :
    Lineage (collectChild M statusPtr c s) := by
  rw [collectChild_eq hc ha statusPtr hch hz]
  obtain ⟨hl,hp⟩ := hc.family.child_parent _ c hc.ready.current_live hch
  have h₁ := h.other (l := if statusPtr=0 then []
    else [.stored s.currentProcess statusPtr 4]) (by split <;> simp [Unrelated])
  exact h₁.report hl hp (hc.ready.ne_null hc.ready.current_live) hz

/-- Every operation keeps the records. -/
theorem op_lineage {b : Bool} (hc : Coherent M s) (h : Lineage s) (hop : Op M allow b s t) :
    Lineage t := by
  have hpar : ∀ x,s.live x=true → s.parent x≠0 → s.live (s.parent x)=true := live_parent hc
  have hqz : ∀ {q w rest},s.queue q=w::rest → s.state w≠.zombie := fun hq =>
    blocked_not_zombie (hc.block.blocked (by rw [hq]; exact List.mem_cons_self))
  cases hop with
  | note e hn =>
    refine h.other (fun e' he => ?_)
    rw [List.mem_singleton.1 he]
    cases e with
    | exited p b r st => exact hn.elim
    | waited pb cb n st => exact hn.elim
    | _ => trivial
  | tick => exact h.other (by simp [Unrelated])
  | writeDone i len => exact h.other (by simp [Unrelated])
  | sleepOver p hl ho => exact lineage_wake h (blocked_not_zombie ho.2.1) (by simp [Unrelated])
  | requeue hi hs =>
    exact (h.setState (by rw [hs]; decide) (by decide)).other (by simp [Unrelated])
  | dispatch env hs => exact dispatch_lineage hc hs h
  | forkUndone env c pfns pt m₁ m u ha hcp => exact undone_lineage hc h hcp
  | spawn env caller c pfns pt m₁ m u hb hcp hk hn =>
    obtain ⟨h0,hl⟩ := callocPcb_fresh hcp
    rw [spawn_eq]
    exact (h.fork hl hpar hc.ready.current_live hn).other (by simp [Unrelated])
  | orphan c rest ha hch => exact h.orphan
  | unlock i l => exact h.other (by simp [Unrelated])
  | handOff i l w rest u ha ho how hq =>
    exact (lineage_wake (w := w) (l := [.lockReleased l.opened l.owner,
      .woken w (.pop (.lockWaiters i))]) h (hqz hq) (by simp [Unrelated])).other
      (by simp [Unrelated])
  | zombie status k env m v hk hb =>
    exact h.exit hc.ready.current_live hb.toRunnable.not_zombie status _
  | zombieWake status k env m v hk hb hch hl hp hw => exact zombieWake_lineage hc h hb hp hw
  | collect statusPtr c ha hch hz => exact collect_lineage statusPtr hc h ha hch hz
  | blockDelay ticks k u hk hb => exact h.setState hb.toRunnable.not_zombie (by decide)
  | blockChild statusPtr k u hk hb => exact h.setState hb.toRunnable.not_zombie (by decide)
  | blockPipe id buf len pipe k u hk hb => exact h.setState hb.toRunnable.not_zombie (by decide)
  | blockLock id l k u hk hb =>
    exact (h.setState hb.toRunnable.not_zombie (by decide)).other (by simp [Unrelated])
  | blockCvar id lockId cvar lockOpened k u hk hb =>
    exact (h.setState hb.toRunnable.not_zombie (by decide)).other (by simp [Unrelated])
  | blockRead i k u hk hb => exact h.setState hb.toRunnable.not_zombie (by decide)
  | startWrite env i buf len k u hk hb =>
    exact ((h.setState hb.toRunnable.not_zombie (by decide)).other (l := [_,_])
      (by simp [Unrelated])).other (by simp [Unrelated])
  | queueWrite env i buf len k u hk hb =>
    exact (h.setState hb.toRunnable.not_zombie (by decide)).other (by simp [Unrelated])
  | wake q w rest u hn hq => exact lineage_wake h (hqz hq) (by simp [Unrelated])
  | openPipe env i hi hf => exact h.setStamp (Nat.le_succ s.stamp)
  | openLock i hi hf => exact h.setStamp (Nat.le_succ s.stamp)
  | openCvar i hi hf => exact h.setStamp (Nat.le_succ s.stamp)
  | takeBytes i pipe len => exact h.other (by simp [Unrelated])
  | putBytes env i pipe grown buf len => exact h.other (by simp [Unrelated])
  | lockTake i l => exact h.other (by simp [Unrelated])
  | lockResume id l => exact h.other (by simp [Unrelated])
  | takeHanded i line => exact h.other (by simp [Unrelated])
  | takeLine i line v => exact h.other (by simp [Unrelated])
  | deliver i line r rest hl hq =>
    exact (lineage_wake (l := [.ttyReceived i line.stamp line.len line.data,
      .woken r (.pop (.readQueue i))]) h (hqz hq) (by simp [Unrelated])).setStamp
      (Nat.le_succ s.stamp)
  | enqueue i line =>
    exact (h.setStamp (Nat.le_succ s.stamp)).other (by simp [Unrelated])
  | transmitSpurious i => exact h.other (by simp [Unrelated])
  | transmitMore i =>
    exact (h.other (l := [_]) (by simp [Unrelated])).other (by simp [Unrelated])
  | transmitLast i u hw =>
    exact lineage_wake h (blocked_not_zombie (writer_blocked hc hw)) (by simp [Unrelated])
  | transmitNext i u w rest hw =>
    have h₁ := lineage_wake (w := (s.terminals i).writer)
      (l := [.ttyCompleted i,.woken (s.terminals i).writer (.written i)]) h
      (blocked_not_zombie (writer_blocked hc hw)) (by simp [Unrelated])
    exact (h₁.other (l := [_]) (by simp [Unrelated])).other (by simp [Unrelated])
  | _ => exact h

/-- Every operation leaves idle without children. -/
theorem op_childless {b : Bool} (hc : Coherent M s) (h : s.children s.idleProcess=[])
    (hop : Op M allow b s t) : t.children t.idleProcess=[] := by
  cases hop with
  | dispatch env hs =>
    have he := dispatchNext_eq hc hs
    rw [he]
    exact h
  | forkUndone env c pfns pt m₁ m u ha hcp =>
    obtain ⟨h0,hl⟩ := callocPcb_fresh hcp
    have hi : s.idleProcess≠c := by
      rintro rfl
      rw [hc.ready.idle_live] at hl
      cases hl
    rw [destroyed_child hc h0 hl]
    by_cases he : s.idleProcess=s.currentProcess
    · rw [he] at h
      simp [releaseProcess,Kernel.setUserContext,enterChild,he,h]
    · simp [releaseProcess,Kernel.setUserContext,enterChild,Function.update_of_ne he,
        Function.update_of_ne hi,h]
  | spawn env caller c pfns pt m₁ m u hb hcp =>
    obtain ⟨h0,hl⟩ := callocPcb_fresh hcp
    have hi : s.idleProcess≠c := by
      rintro rfl
      rw [hc.ready.idle_live] at hl
      cases hl
    rw [spawn_eq]
    simp [enterChild,Function.update_of_ne hb.notIdle.symm,Function.update_of_ne hi,h]
  | orphan c rest ha hch =>
    have hi : s.idleProcess≠s.currentProcess := by
      intro he
      rw [he,hch] at h
      cases h
    exact (Function.update_of_ne hi ..).trans h
  | collect statusPtr c ha hch hz =>
    rw [collectChild_eq hc ha statusPtr hch hz]
    have hi : s.idleProcess≠s.currentProcess := by
      intro he
      rw [←he,h] at hch
      cases hch
    exact (Function.update_of_ne hi ..).trans h
  | _ => exact h

/-- Destroying a process is not recorded. -/
theorem processDestroy_log (p : PcbPtr) : (processDestroy M p s).log=s.log := by
  unfold processDestroy
  split
  · rfl
  · obtain ⟨ch,pa,he⟩ := orphanChildren_frame (s := leaveParent p s) p
      ((leaveParent p s).children p)
    rw [he]
    have hb : ∀ s : Kernel,(leaveBlockQueue p s).log=s.log := by
      intro s
      unfold leaveBlockQueue
      split
      · rfl
      · split
        · rfl
        · rfl
    have hp : (leaveParent p s).log=s.log := by
      unfold leaveParent
      split
      · rfl
      · rfl
    exact (hb _).trans hp

/-- A step that runs the loop of SysWait, with the outcome of the call. -/
inductive WaitRuns (M : Machine) (env : Env) (s : Kernel) : Input → Flow → Prop
  /-- A Wait call of the running process. -/
  | call (u : UserContext) (hu : s.cpu=.user) (hv : u.vector=.kernel)
      (hw : M.syscallOf u.code=.wait) :
      WaitRuns M env s (.trap u) (sysWait M env s.currentProcess (u.ptr 0) u (saveContext u s))
  /-- A Wait call that goes on. -/
  | resumed (sp : ℕ) (hu : s.cpu=.kernel)
      (hk : (s.kernelContext s.currentProcess).point=.wait sp) :
      WaitRuns M env s .resume (waitLoop M env (s.kernelContext s.currentProcess).caller sp
        (savedContext s) {s.setKernelContext s.currentProcess ⟨s.currentProcess,.executing⟩ with
          waitingForChild := Function.update s.waitingForChild s.currentProcess false})

/-- These are the steps whose result is that of the loop. -/
theorem waitRuns_step {env : Env} {input : Input} {f : Flow} (h : WaitRuns M env s input f) :
    ∃ caller,kernelStep M env s input=finish caller f := by
  cases h with
  | call u hu hv hw =>
    refine ⟨s.currentProcess,?_⟩
    simp only [kernelStep,trap,hv,trapKernel,syscallDispatch,hw]
  | resumed sp hu hk =>
    refine ⟨(s.kernelContext s.currentProcess).caller,?_⟩
    simp only [kernelStep,resume,continueAt,hk]
    rfl

/-- The loop fails exactly without children. -/
theorem waitLoop_error {env : Env} {caller : PcbPtr} {sp : ℕ} {u : UserContext}
    (h : ∀ c∈s.children s.currentProcess,s.pid c≠ERROR) :
    (∃ t u',waitLoop M env caller sp u s=.returns t u' ERROR) ↔
      s.children s.currentProcess=[] := by
  unfold waitLoop
  cases hz : zombieChild s s.currentProcess with
  | some c =>
    have hm : c∈s.children s.currentProcess := List.mem_of_find?_eq_some hz
    constructor
    · rintro ⟨t,u',he⟩
      injection he with _ _ hp
      exact absurd hp (h c hm)
    · intro hn
      rw [hn] at hm
      cases hm
  | none =>
    by_cases he : s.children s.currentProcess=[]
    · simp [he]
    · simp [he]

/-- The loop returns the identifier of a zombie child and records the report. -/
theorem waitLoop_child {env : Env} {caller : PcbPtr} {sp : ℕ} {u u' : UserContext} {rc : ℤ}
    (h : waitLoop M env caller sp u s=.returns t u' rc) (hr : rc≠ERROR) :
    ∃ c∈s.children s.currentProcess,s.state c=.zombie ∧ rc=s.pid c ∧
      ∃ l,t.log=s.log++l++[.waited (s.birth s.currentProcess) (s.birth c) (s.pid c)
        (s.exitStatus c)] := by
  unfold waitLoop at h
  split at h
  · rename_i c hz
    injection h with ht _ hp
    have hs := List.find?_some hz
    refine ⟨c,List.mem_of_find?_eq_some hz,by simpa using hs,hp.symm,
      (if sp=0 then [] else [.stored s.currentProcess sp 4]),?_⟩
    rw [←ht]
    exact processDestroy_log c
  · split at h
    · injection h with _ _ hp
      exact absurd hp.symm hr
    · cases h

/-- No process has ended behind the boot. -/
theorem booted_lineage {b : Boot M} {p q : PcbPtr} {pfn : ℕ} {pfns : ℕ → ℕ} {m₁ m₂ m : Memory}
    {v : UserSpace} {u : UserContext} (h : BootFacts M b p q pfn pfns m₁ m₂ m v) :
    Lineage (bootedKernel M b p q pfn pfns m₁ m₂ m v u) := by
  have hq : (bootedKernel M b p q pfn pfns m₁ m₂ m v u).birth q=1 := by
    simp [bootedKernel,returnToUser,switchedKernel,kcSwitch,Kernel.setKernelContext,initKernel,
      kcCopy,enterInit,idleKernel,enterIdle,emptyKernel]
  have hp : (bootedKernel M b p q pfn pfns m₁ m₂ m v u).birth p=0 := by
    simp [bootedKernel,returnToUser,switchedKernel,kcSwitch,Kernel.setKernelContext,initKernel,
      kcCopy,enterInit,idleKernel,enterIdle,emptyKernel,Function.update_of_ne h.ne.symm]
  refine ⟨fun x hx => ?_,fun x x' hx hx' he => ?_,fun x _ hxp => absurd rfl hxp,
    fun x hx hz => ?_,fun x _ _ => List.not_mem_nil,fun x _ => List.not_mem_nil,
    fun n hn => (by rcases hn with hn|hn <;> cases hn),List.nodup_nil,List.nodup_nil,
    Grounded.empty _⟩
  · rcases booted_live.1 hx with rfl|rfl
    · rw [hq]
      exact Nat.one_lt_two
    · rw [hp]
      exact Nat.two_pos
  · rcases booted_live.1 hx with rfl|rfl
    · rcases booted_live.1 hx' with rfl|rfl
      · rfl
      · rw [hq,hp] at he
        cases he
    · rcases booted_live.1 hx' with rfl|rfl
      · rw [hq,hp] at he
        cases he
      · rfl
  · rw [booted_running (booted_live.1 hx)] at hz
    cases hz

/-- The outcome of Wait: it fails exactly without children, and otherwise
returns the identifier of a child that has exited. -/
theorem wait_result (hc : Settled M s) (h : Lineage s) (hi : s.children s.idleProcess=[])
    {env : Env} {input : Input} {f : Flow} (hw : WaitRuns M env s input f) :
    ((∃ t u,f=.returns t u ERROR) ↔ s.children s.currentProcess=[]) ∧
      ∀ t u rc,f=.returns t u rc → rc≠ERROR →
        ∃ c∈s.children s.currentProcess,s.state c=.zombie ∧ rc=s.pid c ∧
          ∃ l,t.log=s.log++l++[.waited (s.birth s.currentProcess) (s.birth c) rc
            (s.exitStatus c)] := by
  have hpid : ∀ c∈s.children s.currentProcess,s.pid c≠ERROR := by
    intro c hm
    obtain ⟨hl,hp⟩ := hc.family.child_parent _ c hc.ready.current_live hm
    exact (h.forked c hl (by rw [hp]; exact hc.ready.ne_null hc.ready.current_live)).2
  cases hw with
  | call u hu hv hwait =>
    have hsave : saveContext u s=s.setUserContext s.currentProcess u := by
      unfold saveContext
      rw [if_pos (hc.ready.ne_null hc.ready.current_live)]
    rw [hsave]
    unfold sysWait
    split
    · rename_i hid
      have he : s.children s.currentProcess=[] := by
        rcases hid with h0|hid
        · exact absurd h0 (hc.ready.ne_null hc.ready.current_live)
        · rw [show s.currentProcess=s.idleProcess from hid]
          exact hi
      refine ⟨⟨fun _ => he,fun _ => ⟨_,_,rfl⟩⟩,fun t u' rc hf hr => ?_⟩
      injection hf with _ _ hf
      exact absurd hf.symm hr
    · refine ⟨waitLoop_error (s := s.setUserContext s.currentProcess u) hpid,
        fun t u' rc hf hr => ?_⟩
      obtain ⟨c,hm,hz,hp,l,hl⟩ := waitLoop_child hf hr
      refine ⟨c,hm,hz,hp,l,?_⟩
      rw [hp]
      exact hl
  | resumed sp hu hk =>
    refine ⟨waitLoop_error (s := {s.setKernelContext s.currentProcess
      ⟨s.currentProcess,.executing⟩ with
        waitingForChild := Function.update s.waitingForChild s.currentProcess false}) hpid,
      fun t u' rc hf hr => ?_⟩
    obtain ⟨c,hm,hz,hp,l,hl⟩ := waitLoop_child hf hr
    refine ⟨c,hm,hz,hp,l,?_⟩
    rw [hp]
    exact hl

/-- In every state of every run a process is on the list of children of
another exactly when that one is its parent, and on no list twice; every
report of Wait was preceded by the fork of that child by the caller and by
the exit of the child with that status; nobody exits or is reported twice;
and a Wait that runs now fails exactly without children and otherwise reports
a child that has exited. -/
theorem reachable_exitStatuses (h : Reachable M s) :
    (∀ p c,s.live p=true → s.live c=true → (c∈s.children p ↔ s.parent c=p)) ∧
      (∀ p,s.live p=true → (s.children p).Nodup ∧ ∀ c∈s.children p,s.live c=true) ∧
      (∀ past parent child pid status,past++[.waited parent child pid status]<+:s.log →
        .forked parent child pid∈past ∧ ∃ p r,.exited p child r status∈past) ∧
      (s.log.flatMap exitedBy).Nodup ∧ (s.log.flatMap waitedBy).Nodup ∧
      ∀ env input f,WaitRuns M env s input f →
        (∃ caller,kernelStep M env s input=finish caller f) ∧
          ((∃ t u,f=.returns t u ERROR) ↔ s.children s.currentProcess=[]) ∧
          ∀ t u rc,f=.returns t u rc → rc≠ERROR →
            ∃ c∈s.children s.currentProcess,s.state c=.zombie ∧ rc=s.pid c ∧
              ∃ l,t.log=s.log++l++[.waited (s.birth s.currentProcess) (s.birth c) rc
                (s.exitStatus c)] := by
  obtain ⟨hs,hl,hi⟩ := reachable_invariant
    (P := fun s => Lineage s ∧ s.children s.idleProcess=[])
    (fun b p q pfn pfns m₁ m₂ m v u hf => ⟨booted_lineage hf,rfl⟩)
    (fun c s t hc hp hop => ⟨op_lineage hc hp.1 hop,op_childless hc hp.2 hop⟩) h
  refine ⟨fun p c hp hc => ⟨fun hm => (hs.family.child_parent p c hp hm).2,fun he => ?_⟩,
    fun p hp => ⟨hs.family.nodup p hp,fun c hm => (hs.family.child_parent p c hp hm).1⟩,
    fun past parent child pid status hpre => hl.reported _ _ hpre,hl.exitedOnce,hl.waitedOnce,
    fun env input f hw => ⟨waitRuns_step hw,wait_result hs hl hi hw⟩⟩
  subst he
  exact (hs.family.parent_child c hc (hs.ready.ne_null hp)).2

/-- A parent that waited is told once that its child has exited. -/
theorem reachable_exitStatuses_child : ∃ s,Reachable sampleMachine s ∧
    s.log.flatMap waitedBy=[2] ∧ s.log.flatMap exitedBy=[2] ∧ (s.log.flatMap waitedBy).Nodup := by
  obtain ⟨s,hr,hq⟩ := replay_reachable sampleBoot_user
    [forkInput 3 2,callInput 4 0 0 0,resumeInput,callInput 3 7 0 0,resumeInput]
    (fun s => s.log.flatMap waitedBy=[2] ∧ s.log.flatMap exitedBy=[2]) (by decide +kernel)
  simp only [decide_eq_true_eq] at hq
  obtain ⟨_,_,_,_,hn,_⟩ := reachable_exitStatuses hr
  exact ⟨s,hr,hq.1,hq.2,hn⟩

end Yalnix.ExitStatuses
