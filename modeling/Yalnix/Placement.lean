import Mathlib.Logic.ExistsUnique
import Mathlib.Logic.Function.Basic

/-!
# Things in places

A thing is placed when it is held somewhere, and in one place only. The
marked things are exactly the placed ones. Things may arrive, leave and move.
Slots are places that hold at most one thing. A change of some slots can be
studied beside arbitrary others.
-/

namespace Yalnix.Placement

variable {τ σ ρ : Type*} {marked marked' : τ → Prop} {holds : σ → τ → Prop}
  {holds' : ρ → τ → Prop}

/-- The marked things are held in one place each, the others nowhere. -/
structure Placed (marked : τ → Prop) (holds : σ → τ → Prop) : Prop where
  /-- Marked is what is held. -/
  held : ∀ b,marked b ↔ ∃ x,holds x b
  /-- No thing is held in two places. -/
  unique : ∀ b x y,holds x b → holds y b → x=y

/-- A marked thing is in exactly one place. -/
theorem Placed.existsUnique (h : Placed marked holds) {b : τ} (hb : marked b) : ∃! x,holds x b := by
  obtain ⟨x,hx⟩ := (h.held b).1 hb
  exact ⟨x,hx,fun y hy => h.unique b y x hy hx⟩

/-- An unmarked thing is nowhere. -/
theorem Placed.nowhere (h : Placed marked holds) {b : τ} (hb : ¬marked b) (x : σ) : ¬holds x b :=
  fun hx => hb ((h.held b).2 ⟨x,hx⟩)

/-- Some things leave, the others may move, each to a place that depends on
where it was. -/
theorem Placed.shift (h : Placed marked holds) (gone : τ → Prop) (f : σ → ρ)
    (hm : ∀ b,marked' b ↔ marked b ∧ ¬gone b)
    (hh : ∀ y b,holds' y b ↔ ∃ x,holds x b ∧ ¬gone b ∧ f x=y) : Placed marked' holds' where
  held b := by
    rw [hm,h.held]
    constructor
    · rintro ⟨⟨x,hx⟩,hg⟩
      exact ⟨f x,(hh _ _).2 ⟨x,hx,hg,rfl⟩⟩
    · rintro ⟨y,hy⟩
      obtain ⟨x,hx,hg,_⟩ := (hh y b).1 hy
      exact ⟨⟨x,hx⟩,hg⟩
  unique b y y' hy hy' := by
    obtain ⟨x,hx,_,rfl⟩ := (hh y b).1 hy
    obtain ⟨x',hx',_,rfl⟩ := (hh y' b).1 hy'
    rw [h.unique b x x' hx hx']

/-- Unmarked things arrive, each at its place. -/
theorem Placed.arrive {holds' : σ → τ → Prop} (h : Placed marked holds) (new : τ → Prop) (f : τ → σ)
    (hn : ∀ b,new b → ¬marked b) (hm : ∀ b,marked' b ↔ marked b ∨ new b)
    (hh : ∀ x b,holds' x b ↔ holds x b ∨ new b ∧ f b=x) : Placed marked' holds' where
  held b := by
    rw [hm,h.held]
    constructor
    · rintro (⟨x,hx⟩|hb)
      · exact ⟨x,(hh _ _).2 (.inl hx)⟩
      · exact ⟨f b,(hh _ _).2 (.inr ⟨hb,rfl⟩)⟩
    · rintro ⟨x,hx⟩
      rcases (hh x b).1 hx with hx|⟨hb,_⟩
      · exact .inl ⟨x,hx⟩
      · exact .inr hb
  unique b x y hx hy := by
    rcases (hh x b).1 hx with hx|⟨hb,he⟩
    · rcases (hh y b).1 hy with hy|⟨hb,_⟩
      · exact h.unique b x y hx hy
      · exact absurd ((h.held b).2 ⟨x,hx⟩) (hn b hb)
    · rcases (hh y b).1 hy with hy|⟨_,he'⟩
      · exact absurd ((h.held b).2 ⟨y,hy⟩) (hn b hb)
      · rw [←he,←he']

section Slots

variable {κ : Type*} {slot : σ → Option τ} {slot' : ρ → Option τ} {x : σ} {b : τ}

/-- The marked things are in one slot each, the others in none. -/
def Filed (marked : τ → Prop) (slot : σ → Option τ) : Prop :=
    Placed marked (fun x b => slot x=some b)

/-- An unmarked thing is put into an empty slot. -/
theorem Filed.fill [DecidableEq σ] (h : Filed marked slot) (hx : slot x=none) (hb : ¬marked b)
    (hm : ∀ c,marked' c ↔ marked c ∨ c=b) :
    Filed marked' (Function.update slot x (some b)) := by
  refine Placed.arrive h (fun c => c=b) (fun _ => x) (fun c hc => by rw [hc]; exact hb) hm
    (fun y c => ?_)
  by_cases hy : y=x
  · subst hy
    rw [Function.update_self,hx]
    constructor
    · intro hc
      injection hc with hc
      exact .inr ⟨hc.symm,rfl⟩
    · rintro (hc|⟨hc,_⟩)
      · cases hc
      · rw [hc]
  · rw [Function.update_of_ne hy]
    constructor
    · exact .inl
    · rintro (hc|⟨_,hc⟩)
      · exact hc
      · exact absurd hc.symm hy

/-- A thing is taken out of its slot. -/
theorem Filed.clear [DecidableEq σ] (h : Filed marked slot) (hx : slot x=some b)
    (hm : ∀ c,marked' c ↔ marked c ∧ c≠b) : Filed marked' (Function.update slot x none) := by
  refine Placed.shift h (fun c => c=b) id hm (fun y c => ?_)
  by_cases hy : y=x
  · subst hy
    rw [Function.update_self]
    constructor
    · intro hc
      cases hc
    · rintro ⟨z,hz,hn,he⟩
      have hzy : z=y := he
      rw [hzy,hx] at hz
      injection hz with hz
      exact absurd hz.symm hn
  · rw [Function.update_of_ne hy]
    constructor
    · intro hc
      refine ⟨y,hc,fun hcb => ?_,rfl⟩
      rw [hcb] at hc
      exact hy (h.unique b y x hc hx)
    · rintro ⟨z,hz,_,he⟩
      have hzy : z=y := he
      rw [←hzy]
      exact hz

/-- The slots are named differently. -/
theorem Filed.move (h : Filed marked slot) (e : σ → ρ)
    (hh : ∀ y b,slot' y=some b ↔ ∃ x,slot x=some b ∧ e x=y) : Filed marked slot' := by
  refine Placed.shift h (fun _ => False) e (fun _ => by simp) (fun y b => ?_)
  rw [hh]
  simp

open Classical in
/-- The slots outside a family. -/
noncomputable def outside (g : κ → σ) (slot : σ → Option τ) (x : σ) : Option τ :=
  if ∃ k,g k=x then none else slot x

/-- A family of slots is set apart from the others. -/
theorem Filed.focus {g : κ → σ} (hg : Function.Injective g) (h : Filed marked slot) :
    Filed marked (Sum.elim (outside g slot) (slot∘g)) := by
  classical
  refine h.move (fun x => if hx : ∃ k,g k=x then .inr hx.choose else .inl x) (fun y b => ?_)
  constructor
  · intro hy
    rcases y with y|k
    · have hne : ¬∃ k,g k=y := by
        intro hk
        rw [Sum.elim_inl,outside,if_pos hk] at hy
        cases hy
      rw [Sum.elim_inl,outside,if_neg hne] at hy
      exact ⟨y,hy,dif_neg hne⟩
    · have hk : ∃ j,g j=g k := ⟨k,rfl⟩
      refine ⟨g k,hy,?_⟩
      rw [dif_pos hk,hg hk.choose_spec]
  · rintro ⟨x,hx,rfl⟩
    by_cases hk : ∃ k,g k=x
    · rw [dif_pos hk,Sum.elim_inr,Function.comp_apply,hk.choose_spec]
      exact hx
    · rw [dif_neg hk,Sum.elim_inl,outside,if_neg hk]
      exact hx

/-- A family of slots is put back among the others. -/
theorem Filed.unfocus {g : κ → σ} {f : κ → Option τ} {slot' : σ → Option τ}
    (h : Filed marked (Sum.elim (outside g slot) f)) (hf : ∀ k,slot' (g k)=f k)
    (ho : ∀ x,(∀ k,g k≠x) → slot' x=slot x) : Filed marked slot' := by
  classical
  refine h.move (Sum.elim id g) (fun x b => ?_)
  constructor
  · intro hx
    by_cases hk : ∃ k,g k=x
    · obtain ⟨k,rfl⟩ := hk
      exact ⟨.inr k,by rw [Sum.elim_inr,←hf]; exact hx,rfl⟩
    · refine ⟨.inl x,?_,rfl⟩
      rw [Sum.elim_inl,outside,if_neg hk,←ho x (fun k he => hk ⟨k,he⟩)]
      exact hx
  · rintro ⟨y,hy,rfl⟩
    rcases y with x|k
    · rw [Sum.elim_inl,outside] at hy
      split at hy
      · cases hy
      · rename_i hk
        change slot' x=some b
        rw [ho x (fun k he => hk ⟨k,he⟩)]
        exact hy
    · change slot' (g k)=some b
      rw [hf]
      exact hy

end Slots

end Yalnix.Placement
