import Mathlib.Algebra.Order.Ring.Nat
import Mathlib.Algebra.Group.Nat.Even
import Mathlib.Data.Int.Init

/-!
# Bytes, words and strings in memory

A memory gives a byte at each address. Words are stored with their lowest byte
first, strings with a zero byte behind them. An argument block is a count, one
pointer for each string and the strings, which may stand elsewhere. Reading the
block gives the strings that it was made from.
-/

namespace Yalnix.ByteMemory

variable {v v' : ℤ → UInt8} {a b x : ℤ} {l l' : List UInt8} {n k : ℕ}

/-- The bytes l stand from address a on. -/
def Holds (v : ℤ → UInt8) : ℤ → List UInt8 → Prop
  | _,[] => True
  | a,b::l => v a=b ∧ Holds v (a+1) l

/-- Two lists stand behind each other. -/
theorem holds_append : Holds v a (l++l') ↔ Holds v a l ∧ Holds v (a+l.length) l' := by
  induction l generalizing a with
  | nil =>
    have ha : a+(([] : List UInt8).length : ℤ)=a := Int.add_zero a
    rw [List.nil_append,ha]
    exact ⟨fun h => ⟨trivial,h⟩,fun h => h.2⟩
  | cons b l ih =>
    have ha : a+((b::l).length : ℤ)=a+1+l.length := by
      rw [List.length_cons]
      omega
    rw [List.cons_append,ha]
    exact ⟨fun h => ⟨⟨h.1,(ih.1 h.2).1⟩,(ih.1 h.2).2⟩,fun h => ⟨h.1.1,ih.2 ⟨h.1.2,h.2⟩⟩⟩

/-- What stands in a range depends on the bytes of the range only. -/
theorem Holds.congr (h : Holds v a l) (hv : ∀ x,a≤x → x<a+l.length → v' x=v x) :
    Holds v' a l := by
  induction l generalizing a with
  | nil => trivial
  | cons b l ih =>
    rw [List.length_cons] at hv
    refine ⟨(hv a (Int.le_refl a) (by omega)).trans h.1,ih h.2 (fun x h₁ h₂ => ?_)⟩
    exact hv x (by omega) (by omega)

/-- The bytes of a range stand there. -/
theorem holds_of (h : ∀ i<l.length,v (a+i)=l.getD i 0) : Holds v a l := by
  induction l generalizing a with
  | nil => trivial
  | cons b l ih =>
    have h0 := h 0 (Nat.succ_pos _)
    have ha : a+((0 : ℕ) : ℤ)=a := Int.add_zero a
    rw [ha] at h0
    refine ⟨h0,ih (fun i hi => ?_)⟩
    have hs := h (i+1) (Nat.succ_lt_succ hi)
    rw [Int.add_assoc,Int.add_comm 1]
    exact hs

/-- The memory behind a store of n bytes. -/
def overwrite (v : ℤ → UInt8) (a : ℤ) (n : ℕ) (src : ℕ → UInt8) (x : ℤ) : UInt8 :=
  if a≤x ∧ x<a+n then src (x-a).toNat else v x

/-- A byte in the stored range is the stored one. -/
theorem overwrite_in {src : ℕ → UInt8} (h₁ : a≤x) (h₂ : x<a+n) :
    overwrite v a n src x=src (x-a).toNat := if_pos ⟨h₁,h₂⟩

/-- A byte outside the stored range is kept. -/
theorem overwrite_out {src : ℕ → UInt8} (h : ¬(a≤x ∧ x<a+n)) : overwrite v a n src x=v x :=
  if_neg h

/-- A list stands where it was stored. -/
theorem holds_overwrite (v : ℤ → UInt8) (a : ℤ) (l : List UInt8) :
    Holds (overwrite v a l.length (fun i => l.getD i 0)) a l := by
  refine holds_of (fun i hi => ?_)
  rw [overwrite_in (by omega) (by omega)]
  have he : (a+(i : ℤ)-a).toNat=i := by omega
  rw [he]

section Words

/-- The k lowest bytes of a number, lowest first. -/
def littleEndian : ℕ → ℕ → List UInt8
  | 0,_ => []
  | k+1,n => UInt8.ofNat (n%256)::littleEndian k (n/256)

/-- The representation of a word has as many bytes as asked for. -/
theorem littleEndian_length (k n : ℕ) : (littleEndian k n).length=k := by
  induction k generalizing n with
  | zero => rfl
  | succ k ih => exact congrArg Nat.succ (ih _)

/-- Read a number of k bytes. -/
def readWord (v : ℤ → UInt8) : ℕ → ℤ → ℕ
  | 0,_ => 0
  | k+1,a => (v a).toNat+256*readWord v k (a+1)

/-- A number that fits is read as it was stored. -/
theorem readWord_of_holds (h : Holds v a (littleEndian k n)) (hn : n<256^k) :
    readWord v k a=n := by
  induction k generalizing a n with
  | zero =>
    rw [Nat.pow_zero] at hn
    exact (Nat.lt_one_iff.1 hn).symm
  | succ k ih =>
    have hbyte : (UInt8.ofNat (n%256)).toNat=n%256 :=
      UInt8.toNat_ofNat_of_lt (Nat.mod_lt n (by decide))
    have hrest : n/256<256^k := by
      rw [Nat.pow_succ] at hn
      exact Nat.div_lt_of_lt_mul (by rw [Nat.mul_comm]; exact hn)
    unfold readWord
    rw [h.1,ih h.2 hrest,hbyte]
    exact Nat.mod_add_div n 256

end Words

section Strings

variable {s : List UInt8}

/-- Read the bytes before the first zero, at most n of them. -/
def readString (v : ℤ → UInt8) : ℕ → ℤ → List UInt8
  | 0,_ => []
  | n+1,a => if v a=0 then [] else v a::readString v n (a+1)

/-- A string that holds no zero is read as it was stored. -/
theorem readString_of_holds (h : Holds v a (s++[0])) (hs : 0∉s) (hn : s.length<n) :
    readString v n a=s := by
  induction s generalizing a n with
  | nil =>
    cases n with
    | zero => exact absurd hn (Nat.lt_irrefl 0)
    | succ n =>
      unfold readString
      exact if_pos h.1
  | cons b s ih =>
    obtain ⟨hb,hs⟩ := not_or.1 (fun hx => hs (List.mem_cons.2 hx))
    cases n with
    | zero => exact absurd hn (Nat.not_lt_zero _)
    | succ n =>
      unfold readString
      rw [h.1,if_neg (fun hz => hb hz.symm),ih h.2 hs (Nat.lt_of_succ_lt_succ hn)]

end Strings

section Arguments

variable {args : List (List UInt8)} {p : ℕ} {top : ℤ}

/-- Strings behind each other, each with its zero. -/
def strings (args : List (List UInt8)) : List UInt8 := args.flatMap (fun s => s++[0])

/-- Their addresses when the first one stands at p. -/
def starts : List (List UInt8) → ℤ → List ℤ
  | [],_ => []
  | s::rest,p => p::starts rest (p+(s.length+1))

/-- A vector of pointers, word by word. -/
def pointers (ps : List ℤ) : List UInt8 := ps.flatMap (fun p => littleEndian 4 p.toNat)

/-- Read n pointers from a on and the strings they point to, which end below top. -/
def readPointers (v : ℤ → UInt8) (top : ℤ) : ℕ → ℤ → List (List UInt8)
  | 0,_ => []
  | n+1,a => readString v (top-readWord v 4 a).toNat (readWord v 4 a)::readPointers v top n (a+4)

/-- The argument block is read as a program reads it, string by string. -/
def readArgs (v : ℤ → UInt8) (top a : ℤ) : List (List UInt8) :=
  readPointers v top (readWord v 4 a) (a+4)

/-- Each string and its zero have a length. -/
theorem strings_cons (s : List UInt8) (rest : List (List UInt8)) :
    strings (s::rest)=s++[0]++strings rest := List.flatMap_cons ..

/-- Each pointer has a word. -/
theorem pointers_length (ps : List ℤ) : (pointers ps).length=4*ps.length := by
  induction ps with
  | nil => rfl
  | cons p ps ih =>
    unfold pointers at ih ⊢
    rw [List.flatMap_cons,List.length_append,ih,littleEndian_length,List.length_cons]
    omega

/-- There is a pointer for each string. -/
theorem starts_length (args : List (List UInt8)) (p : ℤ) : (starts args p).length=args.length := by
  induction args generalizing p with
  | nil => rfl
  | cons s rest ih => exact congrArg Nat.succ (ih _)

/-- Each string but the first begins where the one before it ends. -/
theorem starts_getD {i : ℕ} (p : ℤ) (hi : i<args.length) :
    (starts args p).getD i 0=p+(strings (args.take i)).length := by
  induction args generalizing p i with
  | nil => exact absurd hi (Nat.not_lt_zero i)
  | cons s rest ih =>
    cases i with
    | zero => exact (Int.add_zero p).symm
    | succ i =>
      have hrest := ih (p+(s.length+1)) (Nat.lt_of_succ_lt_succ hi)
      change (starts rest (p+(s.length+1))).getD i 0=_
      rw [hrest,List.take_succ_cons,strings_cons,List.length_append,List.length_append,
        List.length_singleton]
      omega

/-- The length of the first strings grows with their number. -/
theorem strings_take_succ {i : ℕ} (hi : i<args.length) :
    (strings (args.take (i+1))).length=
      (strings (args.take i)).length+((args.getD i []).length+1) := by
  induction args generalizing i with
  | nil => exact absurd hi (Nat.not_lt_zero i)
  | cons s rest ih =>
    rw [List.take_succ_cons,strings_cons,List.length_append,List.length_append,
      List.length_singleton]
    cases i with
    | zero =>
      have hnone : (strings []).length=0 := rfl
      rw [List.take_zero,List.take_zero,hnone,List.getD_cons_zero]
      omega
    | succ i =>
      rw [ih (Nat.lt_of_succ_lt_succ hi),List.take_succ_cons,strings_cons,List.length_append,
        List.length_append,List.length_singleton,List.getD_cons_succ]
      omega

/-- The first strings are no longer than all. -/
theorem strings_take_le (args : List (List UInt8)) (i : ℕ) :
    (strings (args.take i)).length≤(strings args).length := by
  induction args generalizing i with
  | nil =>
    rw [List.take_nil]
  | cons s rest ih =>
    cases i with
    | zero => exact Nat.zero_le _
    | succ i =>
      have hlen : ∀ l : List UInt8,(s++[0]++l).length=(s++[0]).length+l.length :=
        fun l => List.length_append
      rw [List.take_succ_cons,strings_cons,strings_cons,hlen,hlen]
      exact Nat.add_le_add_left (ih i) _

/-- A pointer that stands in memory is read. -/
theorem readWord_pointers {ps : List ℤ} {i : ℕ} (h : Holds v a (pointers ps)) (hi : i<ps.length)
    (h0 : 0≤ps.getD i 0) (hm : ps.getD i 0<256^4) : (readWord v 4 (a+4*i) : ℤ)=ps.getD i 0 := by
  induction ps generalizing a i with
  | nil => exact absurd hi (Nat.not_lt_zero i)
  | cons p ps ih =>
    have hword : Holds v a (littleEndian 4 p.toNat++pointers ps) := h
    obtain ⟨hw,hp⟩ := holds_append.1 hword
    rw [littleEndian_length] at hp
    cases i with
    | zero =>
      rw [List.getD_cons_zero] at h0 hm ⊢
      have ha : a+4*((0 : ℕ) : ℤ)=a := Int.add_zero a
      rw [ha,readWord_of_holds hw (by omega)]
      omega
    | succ i =>
      rw [List.getD_cons_succ] at h0 hm ⊢
      have ha : a+4*((i+1 : ℕ) : ℤ)=a+4+4*i := by omega
      rw [ha]
      exact ih hp (Nat.lt_of_succ_lt_succ hi) h0 hm

/-- Strings whose pointers stand in memory are read. -/
theorem readPointers_of_holds {p : ℤ} (hp : Holds v a (pointers (starts args p)))
    (hs : Holds v p (strings args)) (hz : ∀ s∈args,0∉s) (h0 : 0≤p)
    (ht : p+(strings args).length≤top) (hm : top≤256^4) :
    readPointers v top args.length a=args := by
  induction args generalizing a p with
  | nil => rfl
  | cons s rest ih =>
    have hlen : ((strings (s::rest)).length : ℤ)=s.length+1+(strings rest).length := by
      rw [strings_cons,List.length_append,List.length_append,List.length_singleton]
      omega
    have hword : Holds v a (littleEndian 4 p.toNat++pointers (starts rest (p+(s.length+1)))) := hp
    obtain ⟨hw,hp⟩ := holds_append.1 hword
    rw [strings_cons] at hs
    obtain ⟨hstr,hs⟩ := holds_append.1 hs
    rw [littleEndian_length] at hp
    have hstep : p+((s++[0]).length : ℕ)=p+(s.length+1) := by
      rw [List.length_append,List.length_singleton]
      omega
    rw [hstep] at hs
    have hread : (readWord v 4 a : ℤ)=p := by
      rw [readWord_of_holds hw (by omega)]
      omega
    rw [List.length_cons]
    unfold readPointers
    rw [hread,readString_of_holds hstr (hz s List.mem_cons_self) (by omega)]
    have hrest := ih hp hs (fun s' h' => hz s' (List.mem_cons_of_mem _ h')) (by omega) (by omega)
    exact congrArg (s::·) hrest

/-- An argument block is read as the strings it was made from. -/
theorem readArgs_of_holds {p : ℤ}
    (h : Holds v a (littleEndian 4 args.length++pointers (starts args p)))
    (hs : Holds v p (strings args)) (hz : ∀ s∈args,0∉s) (h0 : 0≤p)
    (ht : p+(strings args).length≤top) (hm : top≤256^4) (hc : args.length<256^4) :
    readArgs v top a=args := by
  obtain ⟨hw,hp⟩ := holds_append.1 h
  rw [littleEndian_length] at hp
  unfold readArgs
  rw [readWord_of_holds hw hc]
  exact readPointers_of_holds hp hs hz h0 ht hm

end Arguments

end Yalnix.ByteMemory
