import Mathlib
import SeriesAlarm.Proofs.Expr.Binding

/-!
# Where a series has no sample

Two sentinels meet in a leaf. A sample that a series does not hold reads as the sentinel of the series,
and counts as missing if it is the sentinel of the leaf, which a rule may set. So an absent sample is
missing, unless the rule sets a number other than the one the series has.
-/

namespace SeriesAlarm

@[simp] theorem isMissingValue_self (x : Float) : isMissingValue x x = true := by
  by_cases h : x = Float.nan <;> simp [isMissingValue, Float.isNaN_eq_decide_eq_nan, h]

namespace Leaf

variable {f f' : Leaf} {s : Series} {t next : Instant} {x : Float}

/-- The functions that tell a sample from its absence. -/
def LooksForSamples (f : Leaf) : Prop :=
  f.kind = .delta ∨ f.kind = .isMissing ∨ f.kind = .isNotMissing

def absentValue (f : Leaf) : Float :=
  match f.kind with
  | .isMissing => truthValue true
  | .isNotMissing => truthValue false
  | _ => f.sentinel 0

/-- The series holds no sample at the instant or, for a change, none there or none one interval
later. -/
def Lacks (f : Leaf) (s : Series) (t : Instant) : Prop :=
  if f.kind = .delta then
    ∃ next, s.interval.next? t = some next ∧
      (sampleAt? t s.samples = none ∨ sampleAt? next s.samples = none)
  else sampleAt? t s.samples = none

theorem sentinel_eq (hseries : f.series? 0 = some s) :
    f.sentinel 0 = f.missingValue.getD s.missing := by
  simp [sentinel, hseries]

theorem isMissingAt_eq (hseries : f.series? 0 = some s) (t : Instant) :
    f.isMissingAt 0 t = isMissingValue (s.valueAt t) (f.sentinel 0) := by
  simp [isMissingAt, sample, hseries]

theorem isMissingAt_of_none (hseries : f.series? 0 = some s) (h : sampleAt? t s.samples = none) :
    f.isMissingAt 0 t = isMissingValue s.missing (f.sentinel 0) := by
  simp [isMissingAt_eq hseries, Series.valueAt, h]

theorem value?_of_unbound (hlooks : f.LooksForSamples) (hseries : f.series? 0 = none) (t : Instant) :
    f.value? t = some f.absentValue := by
  have hmissing : f.isMissingAt 0 t = true := by simp [isMissingAt, sample, hseries]
  rcases hlooks with hkind | hkind | hkind <;>
    simp [value?, absentValue, delta?, hkind, hseries, hmissing]

theorem value?_of_lacks (hlooks : f.LooksForSamples) (hseries : f.series? 0 = some s)
    (hsentinel : isMissingValue s.missing (f.sentinel 0) = true) (hlacks : f.Lacks s t) :
    f.value? t = some f.absentValue := by
  have hmissing {u : Instant} (h : sampleAt? u s.samples = none) : f.isMissingAt 0 u = true :=
    (isMissingAt_of_none hseries h).trans hsentinel
  rcases hlooks with hkind | hkind | hkind <;> simp only [Lacks, hkind] at hlacks
  · obtain ⟨next, hnext, habsent⟩ : ∃ next, s.interval.next? t = some next ∧
      (sampleAt? t s.samples = none ∨ sampleAt? next s.samples = none) := by simpa using hlacks
    have hends : f.isMissingAt 0 t = true ∨ f.isMissingAt 0 next = true :=
      habsent.imp hmissing hmissing
    simp [value?, absentValue, delta?, hkind, hseries, hnext, hends]
  · have habsent := hmissing (by simpa using hlacks)
    simp [value?, absentValue, hkind, habsent]
  · have habsent := hmissing (by simpa using hlacks)
    simp [value?, absentValue, hkind, habsent]

/-- A change is a difference if neither end counts as missing. -/
theorem value?_delta (hkind : f.kind = .delta) (hseries : f.series? 0 = some s)
    (hnext : s.interval.next? t = some next) (here : f.isMissingAt 0 t = false)
    (ahead : f.isMissingAt 0 next = false) :
    f.value? t = some (s.valueAt next - s.valueAt t) := by
  simp [value?, delta?, hkind, hseries, hnext, here, ahead]

theorem arity_of_looks (hlooks : f.LooksForSamples) : f.kind.arity = 1 := by
  rcases hlooks with hkind | hkind | hkind <;> rw [hkind] <;> rfl

theorem series?_of_unresolved {source : Source} {first last : Instant} (hlength : f.inputs.length = 1)
    (h : f.resolve? source first last = some (f', false)) : f'.series? 0 = none := by
  obtain ⟨id, hid⟩ := List.length_eq_one_iff.mp hlength
  simp only [resolve?, hid, bindFrom] at h
  cases hanswer : source.resolve id first last <;> simp [hanswer] at h <;>
    simp [← h, series?]

theorem kind_resolve? {source : Source} {first last : Instant} {ok : Bool}
    (h : f.resolve? source first last = some (f', ok)) : f'.kind = f.kind := by
  obtain ⟨slots, -, heq⟩ := Option.map_eq_some_iff.mp h
  cases heq
  rfl

/-- With this override, the absent samples of a series of this sentinel are missing to every leaf exactly
if the sentinel is no number or equals the override. If not, a change counts the sentinel as a sample.
What was not resolved is missing throughout. -/
theorem absent_isMissing_iff (own : Float) (override : Option Float) :
    ((∀ (f : Leaf) (s : Series) (t : Instant), f.LooksForSamples → f.missingValue = override →
        f.series? 0 = some s → s.missing = own → f.Lacks s t → f.value? t = some f.absentValue) ↔
      ∀ x, override = some x → isMissingValue own x = true) ∧
    (∀ (f : Leaf) (s : Series) (t next : Instant) (x : Float), f.kind = .delta →
      f.missingValue = override → f.series? 0 = some s → s.missing = own →
      s.interval.next? t = some next → override = some x → isMissingValue own x = false →
      (∀ y, sampleAt? t s.samples = some y ∨ sampleAt? next s.samples = some y →
        isMissingValue y x = false) → f.value? t = some (s.valueAt next - s.valueAt t)) ∧
    ∀ (f f' : Leaf) source first last t, f.LooksForSamples → f.inputs.length = f.kind.arity →
      f.resolve? source first last = some (f', false) → f'.value? t = some f'.absentValue := by
  refine ⟨⟨?_, ?_⟩, ?_, ?_⟩
  · intro h x hx
    by_contra hnot
    let s : Series := { identifier := "", interval := .oneDay, missing := own }
    let f : Leaf := { kind := .isMissing, missingValue := override, bound := [some s] }
    have hvalue := h f s .first (.inr (.inl rfl)) rfl rfl rfl rfl
    have hread : f.isMissingAt 0 .first = false := by
      rw [isMissingAt_of_none (s := s) rfl rfl, sentinel_eq (s := s) rfl]
      simpa [f, s, hx] using hnot
    simp only [value?, hread, absentValue, Option.some.injEq, f] at hvalue
    exact absurd hvalue (by decide)
  · intro h f s t hlooks hoverride hseries hown hlacks
    refine value?_of_lacks hlooks hseries ?_ hlacks
    rw [sentinel_eq hseries, hoverride, hown]
    cases override with
    | none => exact isMissingValue_self own
    | some x => exact h x rfl
  · intro f s t next x hkind hoverride hseries hown hnext hx hdiffers hsamples
    have hsentinel : f.sentinel 0 = x := by simp [sentinel_eq hseries, hoverride, hx]
    have hread (u : Instant) (h : ∀ y, sampleAt? u s.samples = some y → isMissingValue y x = false) :
        f.isMissingAt 0 u = false := by
      rw [isMissingAt_eq hseries, hsentinel, Series.valueAt]
      cases hsample : sampleAt? u s.samples with
      | none => simpa [hown] using hdiffers
      | some y => exact h y hsample
    exact value?_delta hkind hseries hnext (hread t fun y hy => hsamples y (.inl hy))
      (hread next fun y hy => hsamples y (.inr hy))
  · intro f f' source first last t hlooks hlength h
    have hseries := series?_of_unresolved (hlength.trans (arity_of_looks hlooks)) h
    exact value?_of_unbound (by rwa [LooksForSamples, kind_resolve? h]) hseries t

/-- Before its first sample the level of a river is -999, and a rule that takes -1 for missing sees it
rise by 1074. -/
theorem value?_gap :
    let six := Instant.ofDate ⟨2006, 5, 20⟩ (6 * 3600)
    let five := Instant.ofDate ⟨2006, 5, 20⟩ (5 * 3600)
    let river : Series := {
      identifier := "A", interval := { base := .hour, multiplier := 1 }
      missing := -999.0, samples := [(six, 75.0)] }
    let f : Leaf := {
      kind := .delta, inputs := ["A"], missingValue := some (-1.0), bound := [some river] }
    f.Lacks river five ∧ f.absentValue = -1.0 ∧ f.value? five = some 1074.0 ∧
      f.value? five ≠ some f.absentValue := by
  refine ⟨⟨_, rfl, .inl (by decide)⟩, rfl, ?_, ?_⟩
  · decide +kernel
  · decide +kernel

end Leaf
end SeriesAlarm
