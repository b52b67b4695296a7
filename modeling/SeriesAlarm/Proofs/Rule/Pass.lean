import SeriesAlarm.Proofs.Calendar.Slots
import SeriesAlarm.Proofs.Outcome
import SeriesAlarm.Proofs.Expr.Evaluation
import SeriesAlarm.Proofs.Expr.Explanation

/-!
# What a pass does

A pass comes to an end in one of three ways, and between its first and its last slot it evaluates
the tree at one instant after another. What each evaluation keeps, the pass keeps.
-/

namespace SeriesAlarm
namespace Test

/-- The test after its tree was evaluated at an instant to the given values. -/
def evaluated (s : Test) (t : Instant) (root : Tree) : Test :=
  { s with
    root
    groups := s.groups ++ if isTruthy root.last then [root.explain s.id s.message t 0] else [] }

theorem run?_eq_some {s : Test} {t : Instant} {x : Test × Bool} (h : s.run? t = some x) :
    ∃ root, s.root.evaluate? t = some root ∧ x.1 = s.evaluated t root := by
  obtain ⟨root, hroot, hx⟩ := Option.map_eq_some_iff.mp h
  refine ⟨root, hroot, ?_⟩
  rw [← hx, evaluated]
  split <;> simp

/-- A step of a scan finds the flag up, or evaluates the tree. -/
theorem Scan.step_cases {flag : CancelReadings} {t : Instant} {c c' : Scan}
    (h : c.step flag t = .ok c') :
    (flag c.reads = true ∧
      c' = { c with
        test := { c.test with groups := [] }, reads := c.reads + 1, cancelled := true }) ∨
    (flag c.reads = false ∧ ∃ root, c.test.root.evaluate? t = some root ∧
      c' = { c with
        test := c.test.evaluated t root, visited := t :: c.visited, reads := c.reads + 1 }) := by
  unfold Scan.step at h
  split at h
  · next hflag =>
    cases h
    exact .inl ⟨hflag, rfl⟩
  · next hflag =>
    obtain ⟨x, hx, hc⟩ := bind_eq_ok.mp h
    obtain ⟨root, hroot, htest⟩ := run?_eq_some (orFault_eq_ok.mp hx)
    cases hc
    exact .inr ⟨Bool.eq_false_iff.mpr hflag, root, hroot, by rw [← htest]⟩

/-- What held along a scan holds where it stands, or it held before the flag was found up and the
groups were dropped. -/
inductive Scan.Kept (P : Test → List Instant → Prop) (c : Scan) : Prop
  | standing (holds : P c.test c.visited)
  | dropped (s : Test) (holds : P s c.visited) (cancelled : c.cancelled = true)
      (test : c.test = { s with groups := [] })

section Keeps

variable {P : Test → List Instant → Prop} {flag : CancelReadings}

theorem Scan.Kept.of_going {c : Scan} (h : c.Kept P) (going : c.cancelled = false) :
    P c.test c.visited := by
  cases h with
  | standing holds => exact holds
  | dropped s holds cancelled test =>
    rw [going] at cancelled
    cases cancelled

theorem Scan.step_kept {t : Instant} {c c' : Scan} (h : c.step flag t = .ok c')
    (run : ∀ s vs root, P s vs → s.root.evaluate? t = some root → P (s.evaluated t root) (t :: vs))
    (hc : P c.test c.visited) : c'.Kept P := by
  rcases Scan.step_cases h with ⟨-, rfl⟩ | ⟨-, root, hroot, rfl⟩
  · exact .dropped c.test hc rfl rfl
  · exact .standing (run _ _ root hc hroot)

/-- What the evaluations at the slots of a scan keep, the scan keeps. -/
theorem scan_kept {i : Interval} {last t : Instant} {c c' : Scan} (h : scan flag i last t c = .ok c')
    (run : ∀ s vs u root, i.Follows t u → u ≤ last → P s vs → s.root.evaluate? u = some root →
      P (s.evaluated u root) (u :: vs))
    (hc : P c.test c.visited) : c'.Kept P := by
  fun_induction scan flag i last t c with
  | case1 => cases h
  | case2 t c ht c₁ hstep hcancelled =>
    cases h
    exact Scan.step_kept hstep (fun s vs root => run s vs t root (.refl t) ht) hc
  | case3 => cases h
  | case4 t c ht c₁ hstep hgoing next hnext hlt ih =>
    have hc₁ := Scan.step_kept hstep (fun s vs root => run s vs t root (.refl t) ht) hc
    exact ih h (fun s vs u root hu => run s vs u root (.step hnext hlt hu))
      (hc₁.of_going (Bool.eq_false_iff.mpr hgoing))
  | case5 => cases h
  | case6 t c ht =>
    cases h
    exact .standing hc

end Keeps

/-- The instants that a scan of the bounds may visit: the slots of the shared interval, or the
anchor. -/
def IsSlot (anchor : Instant) (bounds : Instant × Instant) : Option Interval → Instant → Prop
  | some i, u =>
    ∃ first, firstSlot? i bounds.1 = some first ∧ i.Follows first u ∧ u ≤ i.align bounds.2
  | none, u => u = anchor ∧ bounds.1 ≤ u ∧ u ≤ bounds.2

section Between

variable {P : Test → List Instant → Prop} {flag : CancelReadings} {s : Test} {anchor : Instant}
  {bounds : Instant × Instant} {interval : Option Interval} {done : Scan}

theorem scanBetween_kept (h : s.scanBetween flag anchor bounds interval = .ok done)
    (run : ∀ s vs u root, IsSlot anchor bounds interval u → P s vs →
      s.root.evaluate? u = some root → P (s.evaluated u root) (u :: vs))
    (hs : P s []) : done.Kept P := by
  cases interval with
  | some i =>
    obtain ⟨first, hfirst, hscan⟩ := bind_eq_ok.mp h
    have hslot := orFault_eq_ok.mp hfirst
    refine scan_kept hscan (fun s vs u root hlo hhi => run s vs u root ?_) hs
    exact ⟨first, hslot, hlo, hhi⟩
  | none =>
    simp only [scanBetween] at h
    split at h
    · next hin =>
      exact Scan.step_kept h (fun s vs root => run s vs anchor root ⟨rfl, hin⟩) hs
    · cases h
      exact .standing hs

theorem scanBetween_keeps (h : s.scanBetween flag anchor bounds interval = .ok done)
    (clear : ∀ s vs, P s vs → P { s with groups := [] } vs)
    (run : ∀ s vs u root, IsSlot anchor bounds interval u → P s vs →
      s.root.evaluate? u = some root → P (s.evaluated u root) (u :: vs))
    (hs : P s []) : P done.test done.visited := by
  cases scanBetween_kept h run hs with
  | standing holds => exact holds
  | dropped s holds _ test =>
    rw [test]
    exact clear s _ holds

end Between

def bound (s : Test) (root : Tree) : Test := { s.cleared with root }

/-- How a pass that came to an end went: the series did not go together, the flag was up, or the
scan was finished. -/
theorem pass_cases {s : Test} {source : Source} {flag : CancelReadings} {anchor : Instant}
    {p : Pass} (h : s.pass source flag anchor = .ok p) :
    ∃ start root resolved, s.window.back? anchor = some start ∧
      s.root.resolve? source start anchor = some (root, resolved) ∧
      ((∃ e, (s.bound root).nativeInterval = .error e ∧
          p = { test := s.bound root, result := .error e, reads := 0 }) ∨
        ∃ interval done, (s.bound root).nativeInterval = .ok interval ∧
          (s.bound root).scanBetween flag anchor ((s.bound root).scanBounds start anchor) interval =
            .ok done ∧
          p.visited = done.visited.reverse ∧ p.reads = done.reads ∧
          ((done.cancelled = true ∧ p.test = done.test ∧ p.result = .error .cancelled) ∨
            (done.cancelled = false ∧ p.test = done.test.settle ∧
              p.result = .ok {
                forwarded := done.test.settle.groups.length
                steps := done.visited.length
                degraded := (resolved.filter (!·)).length }))) := by
  obtain ⟨start, hstart, h⟩ := bind_eq_ok.mp h
  obtain ⟨⟨root, resolved⟩, hroot, h⟩ := bind_eq_ok.mp h
  refine ⟨start, root, resolved, orFault_eq_ok.mp hstart, orFault_eq_ok.mp hroot, ?_⟩
  dsimp only at h
  split at h
  · next e he =>
    cases h
    exact .inl ⟨e, he, rfl⟩
  · next interval hi =>
    obtain ⟨done, hdone, h⟩ := bind_eq_ok.mp h
    refine .inr ⟨interval, done, hi, hdone, ?_⟩
    split at h
    · next hcancelled =>
      cases h
      exact ⟨rfl, rfl, .inl ⟨hcancelled, rfl, rfl⟩⟩
    · next hcancelled =>
      cases h
      refine ⟨rfl, rfl, .inr ⟨Bool.eq_false_iff.mpr hcancelled, rfl, ?_⟩⟩
      rw [List.length_reverse]

theorem pass_cases_of_ok {s : Test} {source : Source} {flag : CancelReadings} {anchor : Instant}
    {p : Pass} {report : PassReport} (h : s.pass source flag anchor = .ok p)
    (result : p.result = .ok report) :
    ∃ start root resolved interval done, s.window.back? anchor = some start ∧
      s.root.resolve? source start anchor = some (root, resolved) ∧
      (s.bound root).scanBetween flag anchor ((s.bound root).scanBounds start anchor) interval =
        .ok done ∧
      p.visited = done.visited.reverse ∧ done.cancelled = false ∧ p.test = done.test.settle ∧
      report.forwarded = done.test.settle.groups.length ∧ report.steps = done.visited.length := by
  obtain ⟨start, root, resolved, hstart, hroot, hpass⟩ := pass_cases h
  rcases hpass with ⟨e, -, rfl⟩ | ⟨interval, done, -, hscan, hvisited, -, hend⟩
  · cases result
  rcases hend with ⟨-, -, hresult⟩ | ⟨going, htest, hresult⟩
  · rw [hresult] at result
    cases result
  · rw [hresult] at result
    cases result
    exact ⟨start, root, resolved, interval, done, hstart, hroot, hscan, hvisited, going, htest, rfl,
      rfl⟩

theorem pass_eq_ok {s : Test} {source : Source} {flag : CancelReadings} {anchor start : Instant}
    {root : Tree} {resolved : List Bool} {interval : Option Interval} {done : Scan}
    (window : s.window.back? anchor = some start)
    (resolve : s.root.resolve? source start anchor = some (root, resolved))
    (native : (s.bound root).nativeInterval = .ok interval)
    (between : (s.bound root).scanBetween flag anchor (s.scanBounds start anchor) interval =
      .ok done)
    (finished : done.cancelled = false) :
    s.pass source flag anchor = .ok {
      test := done.test.settle
      result := .ok {
        forwarded := done.test.settle.groups.length
        steps := done.visited.reverse.length
        degraded := (resolved.filter (!·)).length }
      reads := done.reads
      visited := done.visited.reverse } := by
  unfold pass
  rw [window]
  change (orFault .reversedWindow (s.root.resolve? source start anchor) >>= _) = _
  rw [resolve]
  dsimp only [orFault, bind, Except.bind]
  split
  · next e he => cases native.symm.trans he
  · next other hother =>
    cases native.symm.trans hother
    change ((s.bound root).scanBetween flag anchor (s.scanBounds start anchor) interval).bind _ = _
    rw [between]
    change (if done.cancelled = true then _ else _) = _
    rw [finished]
    rfl

/-- Two tests differ at most in what passes leave behind. -/
def SameRule (s s' : Test) : Prop :=
  s' = { s with root := s'.root, groups := s'.groups, positive := s'.positive }

theorem SameRule.evaluated {s s' : Test} (h : s.SameRule s') (t : Instant) (root : Tree) :
    s.SameRule (s'.evaluated t root) := by
  unfold SameRule at h
  rw [h]
  rfl

theorem SameRule.forget {s s' : Test} (h : s.SameRule s') : s.SameRule { s' with groups := [] } := by
  unfold SameRule at h
  rw [h]
  rfl

theorem SameRule.settle {s s' : Test} (h : s.SameRule s') : s.SameRule s'.settle := by
  unfold SameRule at h ⊢
  unfold Test.settle
  split <;> rw [h]

theorem root_settle (s : Test) : s.settle.root = s.root := by
  unfold settle
  split <;> rfl

theorem settle_groups_subset (s : Test) : s.settle.groups ⊆ s.groups := by
  unfold settle
  split
  · exact List.nil_subset _
  · exact List.Subset.refl _

def IsPassSlot (s : Test) (source : Source) (anchor u : Instant) : Prop :=
  ∃ start root resolved interval, s.window.back? anchor = some start ∧
    s.root.resolve? source start anchor = some (root, resolved) ∧
    (s.bound root).nativeInterval = .ok interval ∧
    IsSlot anchor (s.scanBounds start anchor) interval u

/-- What holds of the bound test and what the evaluations at the slots of a pass keep, the pass
keeps. The latest instant comes first. -/
theorem pass_keeps {s : Test} {source : Source} {flag : CancelReadings} {anchor : Instant} {p : Pass}
    {P : Test → List Instant → Prop} (h : s.pass source flag anchor = .ok p)
    (bind : ∀ start root resolved, s.root.resolve? source start anchor = some (root, resolved) →
      P (s.bound root) [])
    (clear : ∀ s vs, P s vs → P { s with groups := [] } vs)
    (settle : ∀ s vs, P s vs → P s.settle vs)
    (run : ∀ s' vs u root, s.IsPassSlot source anchor u → P s' vs → s'.root.evaluate? u = some root →
      P (s'.evaluated u root) (u :: vs)) :
    P p.test p.visited.reverse := by
  obtain ⟨start, root, resolved, hstart, hroot, h⟩ := pass_cases h
  have hbound := bind start root resolved hroot
  rcases h with ⟨e, -, rfl⟩ | ⟨interval, done, hinterval, hscan, hvisited, -, h⟩
  · exact hbound
  have hdone : P done.test done.visited := by
    refine scanBetween_keeps hscan clear (fun s' vs u root' hslot => run s' vs u root' ?_) hbound
    exact ⟨start, root, resolved, interval, hstart, hroot, hinterval, hslot⟩
  rw [hvisited, List.reverse_reverse]
  rcases h with ⟨-, htest, -⟩ | ⟨-, htest, -⟩
  · rw [htest]
    exact hdone
  · rw [htest]
    exact settle _ _ hdone

theorem pass_sameRule {s : Test} {source : Source} {flag : CancelReadings} {anchor : Instant}
    {p : Pass} (h : s.pass source flag anchor = .ok p) : s.SameRule p.test := by
  refine pass_keeps (P := fun s' _ => s.SameRule s') h ?_ ?_ ?_ ?_
  · exact fun _ _ _ _ => rfl
  · exact fun s' _ hs' => hs'.forget
  · exact fun s' _ hs' => hs'.settle
  · exact fun s' _ u root _ hs' _ => hs'.evaluated u root

/-- A test comes out of a pass with its rule and with groups that explain it, one instant each. -/
theorem pass_explains {s : Test} {source : Source} {flag : CancelReadings} {anchor : Instant}
    {p : Pass} (h : s.pass source flag anchor = .ok p) (hs : s.root.isNode = true) :
    s.SameRule p.test ∧ p.test.root.isNode = true ∧
      ∀ g ∈ p.test.groups, ∃ t ∈ p.visited, g.Explains s.id t := by
  have hkept : s.SameRule p.test ∧ p.test.root.isNode = true ∧
      ∀ g ∈ p.test.groups, ∃ t ∈ p.visited.reverse, g.Explains s.id t := by
    refine pass_keeps (P := fun s' vs => s.SameRule s' ∧ s'.root.isNode = true ∧
      ∀ g ∈ s'.groups, ∃ t ∈ vs, g.Explains s.id t) h ?_ ?_ ?_ ?_
    · intro start root resolved hroot
      exact ⟨rfl, (Tree.isNode_resolve? hroot).trans hs, fun g hg => by cases hg⟩
    · rintro s' vs ⟨hrule, hnode, -⟩
      exact ⟨hrule.forget, hnode, fun g hg => by cases hg⟩
    · rintro s' vs ⟨hrule, hnode, hgroups⟩
      exact ⟨hrule.settle, s'.root_settle ▸ hnode, fun g hg => hgroups g (settle_groups_subset s' hg)⟩
    · rintro s' vs u root' - ⟨hrule, hnode, hgroups⟩ heval
      have hnode' : root'.isNode = true := (Tree.isNode_evaluate? heval).trans hnode
      have hid : s'.id = s.id := by rw [hrule]
      refine ⟨hrule.evaluated u root', hnode', fun g hg => ?_⟩
      rcases List.mem_append.mp hg with hg | hg
      · obtain ⟨t, ht, hg⟩ := hgroups g hg
        exact ⟨t, List.mem_cons_of_mem u ht, hg⟩
      · split at hg
        · rw [List.mem_singleton] at hg
          subst hg
          exact ⟨u, List.mem_cons_self, hid ▸ Tree.explains_explain _ _ u hnode'⟩
        · cases hg
  obtain ⟨hrule, hnode, hgroups⟩ := hkept
  refine ⟨hrule, hnode, fun g hg => ?_⟩
  obtain ⟨t, ht, hg⟩ := hgroups g hg
  exact ⟨t, List.mem_reverse.mp ht, hg⟩

end Test
end SeriesAlarm
