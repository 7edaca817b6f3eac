import Yalnix.Traces

/-!
# Runs that go on

The states that a run reaches from a given state of it, together with the
inputs on the way. What every operation keeps, given the state the run went on
from, holds in all of them.
-/

namespace Yalnix.Continuations

open Framework FrameTable KernelState Scheduling Ipc Terminals ProcessLifetime ProgramLoading
open Syscalls Traps KernelStart Coherence Operations OperationCoherence StepOperations
open CallOperations RunInvariants Traces

variable {M : Machine} {okBoot : Boot M → Prop} {ok ok' : Kernel → Env → Input → Prop}
  {s t w : Kernel} {l l' : List (Env × Input)}

/-- The states behind a list of inputs, each of which can occur and meets a condition. -/
inductive Later (M : Machine) (ok : Kernel → Env → Input → Prop) (s : Kernel) :
    List (Env × Input) → Kernel → Prop
  /-- Without a step the state is the first one. -/
  | refl : Later M ok s [] s
  /-- A run goes on with one more step that meets the condition. -/
  | step {l : List (Env × Input)} {t : Kernel} (env : Env) (input : Input) (h : Later M ok s l t)
      (he : input.Enabled t) (hok : ok t env input) :
      Later M ok s (l++[(env,input)]) (kernelStep M env t input)

/-- What goes on from a run is a run. -/
theorem Later.run (hs : Run M okBoot ok s) (h : Later M ok s l t) : Run M okBoot ok t := by
  induction h with
  | refl => exact hs
  | step env input _ he hok ih => exact .step env input ih he hok

/-- Every reachable state is settled. -/
theorem reachable_settled (h : Reachable M s) : Settled M s :=
  (reachable_invariant (P := fun _ => True) (fun _ _ _ _ _ _ _ _ _ _ _ => trivial)
    (fun _ _ _ _ _ _ => trivial) h).1

/-- A run under a stronger condition is one under a weaker condition. -/
theorem Later.mono (hok : ∀ t env input,ok t env input → ok' t env input)
    (h : Later M ok s l t) : Later M ok' s l t := by
  induction h with
  | refl => exact .refl
  | step env input _ he hst ih => exact .step env input ih he (hok _ _ _ hst)

/-- A run that goes on twice. -/
theorem Later.trans (h : Later M ok s l t) (h' : Later M ok t l' w) : Later M ok s (l++l') w := by
  induction h' with
  | refl => rwa [List.append_nil]
  | step env input _ he hok ih =>
    rw [←List.append_assoc]
    exact .step env input ih he hok

/-- What holds in a state and is kept by every operation holds in all later ones. -/
theorem later_invariant {allow : Label → Prop} {P : Kernel → Prop}
    (hok : ∀ s env input,ok s env input → env.switchOk=true ∧ StepAllowed M allow s env input)
    (hop : ∀ c s t,Coherent M s → P s → Op M allow c s t → P t) (hs : Settled M s) (hp : P s)
    (h : Later M ok s l t) : Settled M t ∧ P t := by
  induction h with
  | refl => exact ⟨hs,hp⟩
  | step env input _ he hst ih =>
    obtain ⟨hset,hpt⟩ := ih
    obtain ⟨hsw,hal⟩ := hok _ _ _ hst
    obtain ⟨hops,hnext⟩ := kernelStep_done hset hsw he hal
    have hchain : ∀ {v w},Ops M allow v w → Coherent M v → P v → Coherent M w ∧ P w := by
      intro v w hvw hc hv
      induction hvw with
      | refl => exact ⟨hc,hv⟩
      | tail _ hone ih =>
        obtain ⟨c,hone⟩ := hone
        exact ⟨op_coherent ih.1 hone,hop c _ _ ih.1 ih.2 hone⟩
    exact ⟨hnext,(hchain hops hset.toCoherent hpt).2⟩

/-- A relation to the state a run went on from. -/
theorem later_relation {R : Kernel → Kernel → Prop}
    (hop : ∀ c s t w,Coherent M t → R s t → Op M (fun _ => True) c t w → R s w)
    (hs : Settled M s) (hr : R s s) (h : Later M SwitchSucceeds s l t) : Settled M t ∧ R s t :=
  later_invariant (P := R s) (fun _ _ _ hok => ⟨hok,fun _ _ => trivial⟩)
    (fun c _ _ => hop c s _ _) hs hr h

/-- A replay goes on from its first state. -/
theorem replay_later {test : Kernel → Env → Input → Bool}
    (ht : ∀ s env input,test s env input=true → ok s env input)
    (hr : replay M test l s=some t) : Later M ok s l t := by
  induction l generalizing s with
  | nil =>
    injection hr with hr
    subst hr
    exact .refl
  | cons x rest ih =>
    obtain ⟨env,input⟩ := x
    unfold replay at hr
    split at hr
    · rename_i hc
      have hone : Later M ok s ([]++[(env,input)]) (kernelStep M env s input) :=
        .step env input .refl hc.1 (ht _ _ _ hc.2)
      exact hone.trans (ih hr)
    · cases hr

/-- A replay from the boot, and another one from where it ends. -/
theorem later_exists (okBoot : Boot M → Prop) {test test' : Kernel → Env → Input → Bool}
    (ht : ∀ s env input,test s env input=true → ok s env input)
    (ht' : ∀ s env input,test' s env input=true → ok' s env input)
    {b : Boot M} (hb : okBoot b) (hu : (kernelStart M b).cpu=.user) (l l' : List (Env × Input))
    (P : Kernel → Kernel → Bool)
    (hp : (replay M test l (kernelStart M b)).any
      (fun s => (replay M test' l' s).any (P s))=true) :
    ∃ s t,Run M okBoot ok s ∧ Later M ok' s l' t ∧ P s t=true := by
  cases hr : replay M test l (kernelStart M b) with
  | none =>
    rw [hr] at hp
    cases hp
  | some s =>
    rw [hr,Option.any_some] at hp
    cases hr' : replay M test' l' s with
    | none =>
      rw [hr'] at hp
      cases hp
    | some t =>
      rw [hr'] at hp
      exact ⟨s,t,replay_run ht (.boot b hb hu) hr,replay_later ht' hr',hp⟩

end Yalnix.Continuations
