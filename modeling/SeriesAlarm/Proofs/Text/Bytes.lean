import Mathlib.Data.List.Infix
import SeriesAlarm.Proofs.Text.Occurrence

/-!
# Byte positions

A text takes so many bytes in UTF-8, and it may be cut apart behind a number of them. A cut within a
character or behind the end is a fault. A part is found at a byte position, and the text can be cut there
and behind the part.
-/

namespace SeriesAlarm
namespace Text

variable {part a b cs : List Char} {c mark : Char} {n : Nat}

def byteLength : List Char → Nat
  | [] => 0
  | c :: cs => c.utf8Size + byteLength cs

@[simp] theorem byteLength_nil : byteLength [] = 0 := rfl

@[simp] theorem byteLength_cons (c : Char) (cs : List Char) :
    byteLength (c :: cs) = c.utf8Size + byteLength cs := rfl

@[simp] theorem byteLength_append (a b : List Char) :
    byteLength (a ++ b) = byteLength a + byteLength b := by
  induction a with
  | nil => simp
  | cons c a ih => simp [ih, Nat.add_assoc]

def isBoundary (n : Nat) (cs : List Char) : Bool := cs.inits.any fun a => byteLength a == n

def cut? : Nat → List Char → Option (List Char × List Char)
  | 0, cs => some ([], cs)
  | _ + 1, [] => none
  | n + 1, c :: cs =>
    if c.utf8Size ≤ n + 1 then (cut? (n + 1 - c.utf8Size) cs).map fun (a, b) => (c :: a, b) else none

theorem cut?_byteLength (a b : List Char) : cut? (byteLength a) (a ++ b) = some (a, b) := by
  induction a with
  | nil => cases b <;> rfl
  | cons c a ih =>
    have hpos := c.utf8Size_pos
    obtain ⟨m, hm⟩ : ∃ m, c.utf8Size + byteLength a = m + 1 :=
      Nat.exists_eq_succ_of_ne_zero (by omega)
    have hrest : m + 1 - c.utf8Size = byteLength a := by omega
    rw [byteLength_cons, List.cons_append, hm, cut?, if_pos (by omega), hrest, ih, Option.map_some]

theorem cut?_eq_some_iff : cut? n cs = some (a, b) ↔ cs = a ++ b ∧ byteLength a = n := by
  constructor
  · intro h
    fun_induction cut? n cs generalizing a with
    | case1 cs =>
      cases h
      exact ⟨rfl, rfl⟩
    | case2 => cases h
    | case3 n c cs hle ih =>
      obtain ⟨⟨a', b'⟩, hcut, hpair⟩ := Option.map_eq_some_iff.mp h
      cases hpair
      obtain ⟨rfl, hbytes⟩ := ih hcut
      exact ⟨rfl, by rw [byteLength_cons]; omega⟩
    | case4 => cases h
  · rintro ⟨rfl, rfl⟩
    exact cut?_byteLength a b

theorem isBoundary_iff : isBoundary n cs ↔ ∃ a b, cut? n cs = some (a, b) := by
  simp only [isBoundary, List.any_eq_true, List.mem_inits, beq_iff_eq, cut?_eq_some_iff]
  constructor
  · rintro ⟨a, ⟨b, hsplit⟩, hbytes⟩
    exact ⟨a, b, hsplit.symm, hbytes⟩
  · rintro ⟨a, b, rfl, hbytes⟩
    exact ⟨a, List.prefix_append .., hbytes⟩

theorem byteLength_eq_length (h : ∀ c ∈ cs, c.toNat < 128) : byteLength cs = cs.length := by
  induction cs with
  | nil => rfl
  | cons c cs ih =>
    obtain ⟨hc, hcs⟩ := List.forall_mem_cons.mp h
    have hsize : c.utf8Size = 1 := Char.utf8Size_eq_one_iff.mpr (Nat.le_of_lt_succ hc)
    rw [byteLength_cons, hsize, ih hcs, List.length_cons, Nat.add_comm]

def position? (part cs : List Char) : Option Nat :=
  (splitOnText part cs).map fun (before, _) => byteLength before

theorem position?_of_absent (h : ¬ part <:+: cs) : position? part cs = none := by
  rw [position?, splitOnText_eq_none_iff.mpr h, Option.map_none]

theorem position?_append (h : IsMarked mark part) (ha : ¬ part <:+: a) :
    position? part (a ++ part ++ b) = some (byteLength a) := by
  rw [position?, (splitOnText_eq_some_iff h).mpr ⟨rfl, ha⟩, Option.map_some]

end Text
end SeriesAlarm
