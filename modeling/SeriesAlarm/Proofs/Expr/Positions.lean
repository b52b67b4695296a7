import SeriesAlarm.Expr.Tree

/-!
# Positions in a tree

A position is the list of sides taken from the root down. Of two positions one precedes the other in
post-order if it lies below it, or if it takes the left side where they part.
-/

namespace SeriesAlarm

inductive Side
  | left | right
  deriving DecidableEq, Repr

/-- The sides taken from the root down. -/
abbrev Position := List Side

namespace Position

/-- A position comes after all positions below it, and those below the left operand of a node come
before those below the right one. -/
def Precedes (p q : Position) : Prop :=
  (q <+: p ∧ q ≠ p) ∨ ∃ r p' q', p = r ++ Side.left :: p' ∧ q = r ++ Side.right :: q'

variable {p q : Position}

theorem precedes_root (side : Side) (p : Position) : Precedes (side :: p) [] :=
  .inl ⟨List.nil_prefix, (List.cons_ne_nil side p).symm⟩

theorem not_root_precedes (p : Position) : ¬Precedes [] p := by
  rintro (⟨hbelow, hne⟩ | ⟨r, p', q', hnil, -⟩)
  · exact hne (List.prefix_nil.mp hbelow)
  · exact List.append_ne_nil_of_right_ne_nil r (List.cons_ne_nil _ p') hnil.symm

theorem precedes_cons_iff {a b : Side} :
    Precedes (a :: p) (b :: q) ↔ (a = .left ∧ b = .right) ∨ (a = b ∧ Precedes p q) := by
  constructor
  · rintro (⟨hbelow, hne⟩ | ⟨r, p', q', hp, hq⟩)
    · obtain ⟨rfl, hqp⟩ := List.cons_prefix_cons.mp hbelow
      exact .inr ⟨rfl, .inl ⟨hqp, fun heq => hne (by rw [heq])⟩⟩
    · cases r with
      | nil => exact .inl ⟨(List.cons.inj hp).1, (List.cons.inj hq).1⟩
      | cons c r =>
        obtain ⟨rfl, htail⟩ := List.cons.inj hp
        obtain ⟨rfl, htail'⟩ := List.cons.inj hq
        exact .inr ⟨rfl, .inr ⟨r, p', q', htail, htail'⟩⟩
  · rintro (⟨rfl, rfl⟩ | ⟨rfl, ⟨hbelow, hne⟩ | ⟨r, p', q', rfl, rfl⟩⟩)
    · exact .inr ⟨[], p, q, rfl, rfl⟩
    · exact .inl ⟨(List.prefix_cons_inj a).mpr hbelow, fun heq => hne (List.cons.inj heq).2⟩
    · exact .inr ⟨a :: r, p', q', rfl, rfl⟩

theorem Precedes.asymm (h : Precedes p q) : ¬Precedes q p := by
  induction p generalizing q with
  | nil => exact absurd h (not_root_precedes q)
  | cons a p ih =>
    cases q with
    | nil => exact not_root_precedes _
    | cons b q =>
      rw [precedes_cons_iff] at h ⊢
      rcases h with ⟨rfl, rfl⟩ | ⟨rfl, hpq⟩
      · rintro (⟨hside, -⟩ | ⟨hside, -⟩) <;> cases hside
      · rintro (⟨rfl, hside⟩ | ⟨-, hqp⟩)
        · cases hside
        · exact ih hpq hqp

theorem Precedes.ne (h : Precedes p q) : p ≠ q := by
  rintro rfl
  exact h.asymm h

end Position

namespace Tree

def at? : Tree → Position → Option Tree
  | e, [] => some e
  | .leaf _, _ :: _ => none
  | .node _ left _ _ _, .left :: p => left.at? p
  | .node _ _ right _ _, .right :: p => right.at? p

@[simp] theorem at?_nil (e : Tree) : e.at? [] = some e := by cases e <;> rfl

end Tree
end SeriesAlarm
