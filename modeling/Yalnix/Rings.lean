import Mathlib.Logic.Function.Basic
import Mathlib.Data.List.Nodup

/-!
# Circular doubly linked lists

Two functions link the cells of a memory forwards and backwards. A segment leads
from one cell through a list of cells to another; a ring is a segment from its
head to the head. A cell is linked in at the end of a segment or unlinked from
its middle by changing the links of its neighbours only.
-/

namespace Yalnix.Rings

variable {α : Type*} {f next prev next' prev' : α → α} {a b c : α} {l l' l₁ l₂ : List α}

section Segments

/-- Following the links from a leads through l to b. -/
def Follows (f : α → α) : α → List α → α → Prop
  | a,[],b => f a=b
  | a,c::l,b => f a=c ∧ Follows f c l b

/-- The cells from a through l to b are linked in both directions. -/
def Linked (next prev : α → α) : α → List α → α → Prop
  | a,[],b => next a=b ∧ prev b=a
  | a,c::l,b => (next a=c ∧ prev c=a) ∧ Linked next prev c l b

/-- Two walks one behind the other. -/
theorem Follows.append (h₁ : Follows f a l₁ c) (h₂ : Follows f c l₂ b) :
    Follows f a (l₁++c::l₂) b := by
  induction l₁ generalizing a with
  | nil => exact ⟨h₁,h₂⟩
  | cons d l₁ ih => exact ⟨h₁.1,ih h₁.2⟩

/-- The way to a cell that is not on the way before is unique. -/
theorem Follows.unique (h : Follows f a l b) (h' : Follows f a l' b) (hb : b∉l) (hb' : b∉l') :
    l=l' := by
  induction l generalizing a l' with
  | nil =>
    cases l' with
    | nil => rfl
    | cons d l' =>
      have hd : b=d := h.symm.trans h'.1
      exact absurd (hd ▸ List.mem_cons_self) hb'
  | cons c l ih =>
    cases l' with
    | nil =>
      have hc : b=c := Eq.trans (Eq.symm h') h.1
      exact absurd (hc ▸ List.mem_cons_self) hb
    | cons d l' =>
      have hcd : c=d := h.1.symm.trans h'.1
      subst hcd
      rw [ih h.2 h'.2 (fun hm => hb (List.mem_cons_of_mem _ hm))
        (fun hm => hb' (List.mem_cons_of_mem _ hm))]

/-- The forward links of a segment lead through its cells. -/
theorem Linked.forward (h : Linked next prev a l b) : Follows next a l b := by
  induction l generalizing a with
  | nil => exact h.1
  | cons c l ih => exact ⟨h.1.1,ih h.2⟩

/-- The backward links of a segment lead through its cells in reverse. -/
theorem Linked.backward (h : Linked next prev a l b) : Follows prev b l.reverse a := by
  induction l generalizing a with
  | nil => exact h.2
  | cons c l ih =>
    rw [List.reverse_cons]
    exact (ih h.2).append h.1.2

/-- A segment is split at one of its cells. -/
theorem linked_append : Linked next prev a (l₁++c::l₂) b ↔
    Linked next prev a l₁ c ∧ Linked next prev c l₂ b := by
  induction l₁ generalizing a with
  | nil => exact Iff.rfl
  | cons d l₁ ih =>
    refine ⟨fun h => ?_,fun h => ⟨h.1.1,ih.2 ⟨h.1.2,h.2⟩⟩⟩
    obtain ⟨h₁,h₂⟩ := ih.1 h.2
    exact ⟨⟨h.1,h₁⟩,h₂⟩

/-- Only the links within a segment matter. -/
theorem Linked.congr (h : Linked next prev a l b) (hn : ∀ x,x∈a::l → next' x=next x)
    (hp : ∀ x,x∈l++[b] → prev' x=prev x) : Linked next' prev' a l b := by
  induction l generalizing a with
  | nil =>
    exact ⟨(hn a List.mem_cons_self).trans h.1,(hp b List.mem_cons_self).trans h.2⟩
  | cons c l ih =>
    refine ⟨⟨(hn a List.mem_cons_self).trans h.1.1,(hp c List.mem_cons_self).trans h.1.2⟩,?_⟩
    exact ih h.2 (fun x hx => hn x (List.mem_cons_of_mem _ hx))
      (fun x hx => hp x (List.mem_cons_of_mem _ hx))

/-- The first link stays within the segment. -/
theorem Linked.next_mem (h : Linked next prev a l b) : next a∈l++[b] := by
  cases l with
  | nil =>
    rw [h.1]
    exact List.mem_cons_self
  | cons c l =>
    rw [h.1.1]
    exact List.mem_cons_self

/-- So does the last link backwards. -/
theorem Linked.prev_mem (h : Linked next prev a l b) : prev b∈a::l := by
  induction l generalizing a with
  | nil =>
    rw [h.2]
    exact List.mem_cons_self
  | cons c l ih => exact List.mem_cons_of_mem _ (ih h.2)

end Segments

section Surgery

variable [DecidableEq α]

/-- A new cell is linked in before the end. -/
theorem Linked.insert (h : Linked next prev a l b) (hl : (a::l).Nodup) (hb : b∉l)
    (hc : c∉a::l) (hcb : c≠b) :
    Linked (Function.update (Function.update next c b) (prev b) c)
      (Function.update (Function.update prev c (prev b)) b c) a (l++[c]) b := by
  induction l generalizing a with
  | nil =>
    obtain ⟨_,hprev⟩ := h
    have hca : c≠a := fun he => hc (he ▸ List.mem_cons_self)
    rw [hprev]
    refine ⟨⟨Function.update_self _ _ _,?_⟩,?_,Function.update_self _ _ _⟩
    · rw [Function.update_of_ne hcb,Function.update_self]
    · rw [Function.update_of_ne hca,Function.update_self]
  | cons d l ih =>
    obtain ⟨⟨hnext,hprev⟩,hrest⟩ := h
    obtain ⟨had,hdl⟩ := List.nodup_cons.1 hl
    have hlast : a≠prev b := fun he => had (he ▸ hrest.prev_mem)
    have hac : a≠c := fun he => hc (he ▸ List.mem_cons_self)
    have hdb : d≠b := fun he => hb (he ▸ List.mem_cons_self)
    have hdc : d≠c := fun he => hc (he ▸ List.mem_cons_of_mem _ List.mem_cons_self)
    refine ⟨⟨?_,?_⟩,ih hrest hdl (fun hm => hb (List.mem_cons_of_mem _ hm))
      (fun hm => hc (List.mem_cons_of_mem _ hm))⟩
    · rw [Function.update_of_ne hlast,Function.update_of_ne hac]
      exact hnext
    · rw [Function.update_of_ne hdb,Function.update_of_ne hdc]
      exact hprev

/-- A cell is unlinked from between two segments. -/
theorem Linked.unlink (h₁ : Linked next prev a l₁ c) (h₂ : Linked next prev c l₂ b)
    (hl : (a::(l₁++c::l₂)).Nodup) (hb : b∉l₁++c::l₂) :
    Linked (Function.update next (prev c) (next c)) (Function.update prev (next c) (prev c))
      a (l₁++l₂) b := by
  induction l₁ generalizing a with
  | nil =>
    obtain ⟨_,hprev⟩ := h₁
    rw [hprev]
    cases l₂ with
    | nil =>
      rw [h₂.1]
      exact ⟨Function.update_self _ _ _,Function.update_self _ _ _⟩
    | cons d l₂ =>
      obtain ⟨⟨hnext,_⟩,hrest⟩ := h₂
      rw [hnext]
      refine ⟨⟨Function.update_self _ _ _,Function.update_self _ _ _⟩,
        hrest.congr (fun x hx => ?_) (fun x hx => ?_)⟩
      · refine Function.update_of_ne (fun he => ?_) _ _
        exact (List.nodup_cons.1 hl).1 (he ▸ List.mem_cons_of_mem _ hx)
      · refine Function.update_of_ne (fun he => ?_) _ _
        rcases List.mem_append.1 hx with hm|hm
        · have hdl := (List.nodup_cons.1 (List.nodup_cons.1 (List.nodup_cons.1 hl).2).2).1
          exact hdl (he ▸ hm)
        · have hxb := List.mem_singleton.1 hm
          exact hb (hxb ▸ he ▸ List.mem_cons_of_mem _ List.mem_cons_self)
  | cons d l₁ ih =>
    obtain ⟨⟨hnext,hprev⟩,hrest⟩ := h₁
    obtain ⟨had,hdl⟩ := List.nodup_cons.1 hl
    have hlast : a≠prev c := by
      refine fun he => had (he ▸ ?_)
      rcases List.mem_cons.1 hrest.prev_mem with hm|hm
      · rw [hm]
        exact List.mem_cons_self
      · exact List.mem_cons_of_mem _ (List.mem_append.2 (.inl hm))
    have hfirst : d≠next c := by
      intro he
      have hmem := h₂.next_mem
      rw [←he] at hmem
      rcases List.mem_append.1 hmem with hm|hm
      · have hout := (List.nodup_cons.1 hdl).1
        exact hout (List.mem_append.2 (.inr (List.mem_cons_of_mem _ hm)))
      · have hdb := List.mem_singleton.1 hm
        exact hb (hdb ▸ List.mem_cons_self)
    refine ⟨⟨?_,?_⟩,ih hrest hdl (fun hm => hb (List.mem_cons_of_mem _ hm))⟩
    · rw [Function.update_of_ne hlast]
      exact hnext
    · rw [Function.update_of_ne hfirst]
      exact hprev

end Surgery

end Yalnix.Rings
