import SeriesAlarm.Expr.Explain

/-!
# The shape of an explanation

The results of one instant name one test and one instant. Exactly one of them, the last, is of
level 0, so no cutoff leaves nothing of them.
-/

namespace SeriesAlarm

def PositiveResult.isWithin (cutoff : Option Nat) (r : PositiveResult) : Bool :=
  cutoff.all (r.level ≤ ·)

namespace ResultGroup

def upTo (cutoff : Option Nat) (g : ResultGroup) : ResultGroup :=
  g.filter (·.isWithin cutoff)

/-- A group explains a test at an instant. -/
structure Explains (g : ResultGroup) (id : String) (t : Instant) : Prop where
  common : ∀ r ∈ g, r.testId = id ∧ r.timestamp = t
  root : ∃ below top, g = below ++ [top] ∧ top.level = 0 ∧ ∀ r ∈ below, 0 < r.level

variable {g : ResultGroup} {id : String} {t : Instant}

theorem Explains.ne_nil (h : g.Explains id t) : g ≠ [] := by
  obtain ⟨below, top, hg, -, -⟩ := h.root
  rw [hg]
  exact List.append_ne_nil_of_right_ne_nil below (List.cons_ne_nil top [])

theorem Explains.timestamp? (h : g.Explains id t) : g.timestamp? = some t := by
  obtain ⟨r, rest, hg⟩ := List.exists_cons_of_ne_nil h.ne_nil
  have hr := h.common r (by rw [hg]; exact List.mem_cons_self)
  simp [ResultGroup.timestamp?, hg, hr.2]

theorem Explains.testId? (h : g.Explains id t) : g.testId? = some id := by
  obtain ⟨r, rest, hg⟩ := List.exists_cons_of_ne_nil h.ne_nil
  have hr := h.common r (by rw [hg]; exact List.mem_cons_self)
  simp [ResultGroup.testId?, hg, hr.1]

theorem upTo_sublist (cutoff : Option Nat) (g : ResultGroup) : (g.upTo cutoff).Sublist g :=
  List.filter_sublist

theorem Explains.upTo (cutoff : Option Nat) (h : g.Explains id t) :
    (g.upTo cutoff).Explains id t := by
  refine ⟨fun r hr => h.common r (List.mem_filter.mp hr).1, ?_⟩
  obtain ⟨below, top, hg, htop, hbelow⟩ := h.root
  have hkept : top.isWithin cutoff = true := by
    rw [PositiveResult.isWithin, htop]
    cases cutoff <;> simp
  refine ⟨below.filter (·.isWithin cutoff), top, ?_, htop, ?_⟩
  · rw [hg, ResultGroup.upTo, List.filter_append, List.filter_cons_of_pos hkept, List.filter_nil]
  · exact fun r hr => hbelow r (List.mem_filter.mp hr).1

end ResultGroup

namespace Tree

theorem mem_explain {id : String} {message : Option String} {t : Instant} {level : Nat} {e : Tree}
    {r : PositiveResult} (h : r ∈ e.explain id message t level) :
    (r.testId = id ∧ r.timestamp = t) ∧ level ≤ r.level := by
  induction e generalizing level with
  | leaf f => cases h
  | node op left right m x ihl ihr =>
    have hdeeper : ∀ n, level + n ≤ r.level → level ≤ r.level := fun n hn => by omega
    simp only [explain, List.mem_append] at h
    rcases h with (h | h) | h
    · split at h
      · exact ⟨(ihl h).1, hdeeper _ (ihl h).2⟩
      · cases h
    · split at h
      · exact ⟨(ihr h).1, hdeeper _ (ihr h).2⟩
      · cases h
    · split at h
      · simp only [List.mem_cons, List.not_mem_nil, or_false] at h
        rcases h with rfl | rfl
        · exact ⟨⟨rfl, rfl⟩, Nat.le_succ level⟩
        · exact ⟨⟨rfl, rfl⟩, Nat.le_refl level⟩
      · rw [List.mem_singleton] at h
        subst h
        exact ⟨⟨rfl, rfl⟩, Nat.le_refl level⟩

/-- The explanation of an operator node from the root on. -/
theorem explains_explain (id : String) (message : Option String) (t : Instant) {e : Tree}
    (he : e.isNode = true) : (e.explain id message t 0).Explains id t := by
  refine ⟨fun r hr => (mem_explain hr).1, ?_⟩
  cases e with
  | leaf f => cases he
  | node op left right m x =>
    have hdeep (n : Nat) (hn : 0 < n) (b : Bool) (side : Tree) (r : PositiveResult)
        (hr : r ∈ if b then side.explain id message t n else []) : 0 < r.level := by
      split at hr
      · exact Nat.lt_of_lt_of_le hn (mem_explain hr).2
      · cases hr
    simp only [explain, if_true]
    cases message with
    | none =>
      refine ⟨_, _, rfl, rfl, fun r hr => ?_⟩
      rcases List.mem_append.mp hr with hr | hr
      · exact hdeep _ (by simp) _ left r hr
      · exact hdeep _ (by simp) _ right r hr
    | some template =>
      refine ⟨_ ++ [_], _, List.append_cons _ _ _, rfl, fun r hr => ?_⟩
      rcases List.mem_append.mp hr with hr | hr
      · rcases List.mem_append.mp hr with hr | hr
        · exact hdeep _ (by simp) _ left r hr
        · exact hdeep _ (by simp) _ right r hr
      · rw [List.mem_singleton] at hr
        subst hr
        exact Nat.zero_lt_one

end Tree
end SeriesAlarm
