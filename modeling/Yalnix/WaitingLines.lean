import Mathlib.Data.List.Basic

/-!
# Waiting lines between two moments

A line is joined behind and served in front. Between two moments those who were
in it and those who joined are those who were served and those who are in it
still, in this order. So nobody is served before somebody who was in front.
-/

namespace Yalnix.WaitingLines

variable {P : Type*} {before after later joined taken l l' : List P} {p : P} {k : ℕ}

/-- Those who waited and those who joined are those who were served and those
who wait now. -/
def Served (before joined taken after : List P) : Prop := before++joined=taken++after

/-- A line is served relative to itself where nobody joins or leaves. -/
theorem Served.refl (l : List P) : Served l [] [] l := List.append_nil l

/-- Those who join stand at the end of the line. -/
theorem Served.push (l l' : List P) : Served l l' [] (l++l') := rfl

/-- Those in front are served. -/
theorem Served.pop (l l' : List P) : Served (l++l') [] l l' := List.append_nil _

/-- One period after the other. -/
theorem Served.trans (h : Served before joined taken after) (h' : Served after l l' later) :
    Served before (joined++l) (taken++l') later := by
  unfold Served at h h' ⊢
  rw [←List.append_assoc,h,List.append_assoc,h',List.append_assoc]

/-- The turn of somebody behind k others: he is served behind those k, or he is
still behind those of them who have not been served. -/
theorem Served.turn (h : Served before joined taken after) (hk : before[k]?=some p) :
    taken[k]?=some p ∨ taken.length≤k ∧ after[k-taken.length]?=some p := by
  have hlt := (List.getElem?_eq_some_iff.1 hk).1
  have hall : (taken++after)[k]?=some p := by
    rw [←h,List.getElem?_append_left hlt]
    exact hk
  by_cases ht : k<taken.length
  · rw [List.getElem?_append_left ht] at hall
    exact .inl hall
  · rw [List.getElem?_append_right (by omega)] at hall
    exact .inr ⟨by omega,hall⟩

end Yalnix.WaitingLines
