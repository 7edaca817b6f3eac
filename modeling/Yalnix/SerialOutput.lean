import Mathlib.Data.List.Basic
import Mathlib.Data.List.Infix

/-!
# Serial output

Several owners submit writes to one device, which takes chunks. Served chunks
come write by write in the order of submission: each write but the last is
sent whole before the next one begins. The progress of a device is its active
write with the cells already sent, and the writes that wait behind it. Each
movement of a write keeps the progress and the history in agreement.
-/

namespace Yalnix.SerialOutput

variable {P B : Type*}

/-- Cells of one owner: a whole write or a chunk of one. -/
structure Piece (P B : Type*) where
  /-- Who submitted the cells. -/
  owner : P
  /-- The bytes of the piece. -/
  bytes : List B

/-- The cells of pieces one after the other. -/
def flat (l : List (Piece P B)) : List B := l.flatMap Piece.bytes

/-- Chunks sent write by write; only the last write may be cut. -/
inductive Served : List (Piece P B) → List (Piece P B) → Prop
  /-- Nothing has been sent. -/
  | nothing (writes : List (Piece P B)) : Served writes []
  /-- Some of the first write has been sent. -/
  | cut (w : Piece P B) (writes chunks : List (Piece P B)) (ho : ∀ c∈chunks,c.owner=w.owner)
      (hb : flat chunks<+:w.bytes) : Served (w::writes) chunks
  /-- The first write has been sent whole, and then others. -/
  | whole (w : Piece P B) (writes chunks later : List (Piece P B))
      (ho : ∀ c∈chunks,c.owner=w.owner) (hb : flat chunks=w.bytes) (h : Served writes later) :
      Served (w::writes) (chunks++later)

/-- The cells of two lists of pieces. -/
theorem flat_append (l l' : List (Piece P B)) : flat (l++l')=flat l++flat l' :=
  List.flatMap_append

/-- The sent cells are the first of the submitted ones. -/
theorem Served.order {writes chunks : List (Piece P B)} (h : Served writes chunks) :
    flat chunks<+:flat writes := by
  induction h with
  | nothing writes => exact List.nil_prefix
  | cut w writes chunks ho hb => exact hb.trans (List.prefix_append _ _)
  | whole w writes chunks later ho hb h ih =>
    rw [flat_append,hb]
    exact (List.prefix_append_right_inj _).2 ih

/-- What has been sent of the active write. -/
inductive Progress : Option (Piece P B × ℕ) → List (Piece P B) → Prop
  /-- There is no active write. -/
  | idle : Progress none []
  /-- The chunks are the first cells of the active write. -/
  | sending (w : Piece P B) (o : ℕ) (chunks : List (Piece P B)) (ho : ∀ c∈chunks,c.owner=w.owner)
      (hb : flat chunks=w.bytes.take o) (hl : o≤w.bytes.length) : Progress (some (w,o)) chunks

/-- Finished writes with their chunks. -/
def Finished (done : List (Piece P B × List (Piece P B))) : Prop :=
  ∀ d∈done,(∀ c∈d.2,c.owner=d.1.owner) ∧ flat d.2=d.1.bytes

/-- The history of a device and its progress agree. -/
structure Serial (limit : ℕ) (writes chunks : List (Piece P B)) (active : Option (Piece P B × ℕ))
    (waiting : List (Piece P B)) : Prop where
  /-- The writes are the finished, the active and the waiting ones. -/
  parts : ∃ done current,Finished done ∧ Progress active current ∧
    writes=done.map Prod.fst++(active.map Prod.fst).toList++waiting ∧
    chunks=done.flatMap Prod.snd++current
  /-- Chunks are neither empty nor too long. -/
  size : ∀ c∈chunks,1≤ c.bytes.length ∧ c.bytes.length≤limit

variable {limit : ℕ} {writes chunks waiting : List (Piece P B)} {active : Option (Piece P B × ℕ)}
  {w : Piece P B} {o : ℕ}

/-- A device nobody has used. -/
theorem Serial.empty (limit : ℕ) : Serial (P := P) (B := B) limit [] [] none [] :=
  ⟨⟨[],[],fun _ hd => (by cases hd),.idle,rfl,rfl⟩,fun _ hc => (by cases hc)⟩

/-- Finished writes are served before what follows them. -/
theorem Finished.served {done : List (Piece P B × List (Piece P B))} (h : Finished done)
    {writes chunks : List (Piece P B)} (hs : Served writes chunks) :
    Served (done.map Prod.fst++writes) (done.flatMap Prod.snd++chunks) := by
  induction done with
  | nil => exact hs
  | cons d done ih =>
    obtain ⟨ho,hb⟩ := h d List.mem_cons_self
    have hrest := ih (fun x hx => h x (List.mem_cons_of_mem _ hx))
    have hw := Served.whole d.1 _ d.2 _ ho hb hrest
    rw [List.flatMap_cons,List.append_assoc]
    exact hw

/-- The chunks are sent write by write. -/
theorem Serial.served (h : Serial limit writes chunks active waiting) : Served writes chunks := by
  obtain ⟨done,current,hf,hp,hw,hc⟩ := h.parts
  rw [hw,hc,List.append_assoc]
  refine hf.served ?_
  cases hp with
  | idle => exact .nothing _
  | sending w o current ho hb hl =>
    refine .cut w waiting current ho ?_
    rw [hb]
    exact List.take_prefix _ _

/-- A write waits behind the others. -/
theorem Serial.submit (h : Serial limit writes chunks active waiting) (w : Piece P B) :
    Serial limit (writes++[w]) chunks active (waiting++[w]) := by
  obtain ⟨done,current,hf,hp,hw,hc⟩ := h.parts
  refine ⟨⟨done,current,hf,hp,?_,hc⟩,h.size⟩
  rw [hw,List.append_assoc]

/-- The first waiting write becomes active. -/
theorem Serial.next (h : Serial limit writes chunks none (w::waiting)) :
    Serial limit writes chunks (some (w,0)) waiting := by
  obtain ⟨done,current,hf,hp,hw,hc⟩ := h.parts
  cases hp with
  | idle =>
    refine ⟨⟨done,[],hf,.sending w 0 [] (fun _ hc => (by cases hc)) rfl (Nat.zero_le _),?_,hc⟩,
      h.size⟩
    rw [hw]
    simp

/-- The next chunk of the active write is sent. -/
theorem Serial.send {n : ℕ} (h : Serial limit writes chunks (some (w,o)) waiting) (h1 : 1≤n)
    (hm : n≤limit) (hl : o+n≤w.bytes.length) :
    Serial limit writes (chunks++[⟨w.owner,(w.bytes.drop o).take n⟩]) (some (w,o+n)) waiting := by
  obtain ⟨done,current,hf,hp,hw,hc⟩ := h.parts
  have hlen : ((w.bytes.drop o).take n).length=n := by
    rw [List.length_take,List.length_drop]
    omega
  cases hp with
  | sending _ _ _ ho hb hlo =>
    refine ⟨⟨done,current++[⟨w.owner,(w.bytes.drop o).take n⟩],hf,.sending w (o+n) _ ?_ ?_
      hl,hw,?_⟩,?_⟩
    · intro c hm
      rcases List.mem_append.1 hm with hm|hm
      · exact ho c hm
      · rw [List.mem_singleton.1 hm]
    · rw [flat_append,hb,List.take_add]
      simp [flat]
    · rw [hc,List.append_assoc]
    · intro c hcm
      rcases List.mem_append.1 hcm with hcm|hcm
      · exact h.size c hcm
      · rw [List.mem_singleton.1 hcm]
        dsimp only
        rw [hlen]
        exact ⟨h1,hm⟩

/-- The active write has been sent whole. -/
theorem Serial.finish (h : Serial limit writes chunks (some (w,w.bytes.length)) waiting) :
    Serial limit writes chunks none waiting ∧
      ∃ before,writes=before++w::waiting ∧ flat chunks=flat before++w.bytes := by
  obtain ⟨done,current,hf,hp,hw,hc⟩ := h.parts
  cases hp with
  | sending _ _ _ ho hb hl =>
    rw [List.take_length] at hb
    have hdone : flat (done.flatMap Prod.snd)=flat (done.map Prod.fst) := by
      clear hw hc
      induction done with
      | nil => rfl
      | cons d done ih =>
        have hd := (hf d List.mem_cons_self).2
        have hrest := ih (fun x hx => hf x (List.mem_cons_of_mem _ hx))
        rw [List.flatMap_cons,flat_append,hd,hrest]
        rfl
    refine ⟨⟨⟨done++[(w,current)],[],?_,.idle,?_,?_⟩,h.size⟩,done.map Prod.fst,?_,?_⟩
    · intro d hd
      rcases List.mem_append.1 hd with hd|hd
      · exact hf d hd
      · rw [List.mem_singleton.1 hd]
        exact ⟨ho,hb⟩
    · rw [hw]
      simp
    · rw [hc]
      simp
    · rw [hw]
      simp
    · rw [hc,flat_append,hdone,hb]

end Yalnix.SerialOutput
