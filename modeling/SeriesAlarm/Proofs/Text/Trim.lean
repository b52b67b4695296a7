import Mathlib.Data.List.DropRight
import SeriesAlarm.Text.Blank
import SeriesAlarm.Text.Digits

/-!
# Trimmed texts

Where digits, white space and capital letters stand among the characters, and which texts are left as
they are when white space is trimmed off their ends.
-/

namespace SeriesAlarm
namespace Text

variable {a b cs : List Char} {c : Char}

theorem toLower_eq_self (h : c.toNat < 65 ∨ 90 < c.toNat) : c.toLower = c := by
  refine dif_neg fun ⟨hlow, hhigh⟩ => ?_
  have hlow : 65 ≤ c.toNat := hlow
  have hhigh : c.toNat ≤ 90 := hhigh
  omega

theorem isDigit_bounds (h : isDigit c = true) : 48 ≤ c.toNat ∧ c.toNat ≤ 57 := by
  simpa [isDigit, Char.le_def, UInt32.le_iff_toNat_le] using h

theorem isBlank_bounds (h : isBlank c = true) : c.toNat ≤ 32 ∨ 128 ≤ c.toNat := by
  simp only [isBlank, Bool.or_eq_true, Bool.and_eq_true, decide_eq_true_eq, beq_iff_eq] at h
  omega

theorem isBlank_of_isDigit (h : isDigit c = true) : isBlank c = false := by
  have hdigit := isDigit_bounds h
  refine Bool.eq_false_iff.mpr fun hblank => ?_
  have hblank := isBlank_bounds hblank
  omega

theorem trimEnd_of_trimEnd_append (h : trimEnd (a ++ b) = a ++ b) : trimEnd b = b := by
  refine List.rdropWhile_eq_self_iff.mpr fun hb => ?_
  have hlast := List.rdropWhile_eq_self_iff.mp h (List.append_ne_nil_of_right_ne_nil a hb)
  rwa [List.getLast_append_of_right_ne_nil a b hb] at hlast

theorem trimEnd_trimChars (cs : List Char) : trimEnd (trimChars cs) = trimChars cs :=
  List.rdropWhile_idempotent ..

theorem trimChars_eq_self (hhead : ∀ c ∈ cs.head?, isBlank c = false)
    (hlast : ∀ c ∈ cs.getLast?, isBlank c = false) : trimChars cs = cs := by
  have hstart : trimStart cs = cs := by
    cases cs with
    | nil => rfl
    | cons c cs => exact List.dropWhile_cons_of_neg (by simp [hhead c rfl])
  rw [trimChars, hstart]
  refine List.rdropWhile_eq_self_iff.mpr fun hne => ?_
  simp [hlast _ (List.getLast?_eq_some_getLast hne)]

end Text
end SeriesAlarm
