/-!
# Replacing parts of a text

Occurrences of a part are found from left to right and do not overlap.
-/

namespace SeriesAlarm
namespace Text

def dropLeading? : List Char → List Char → Option (List Char)
  | [], cs => some cs
  | _ :: _, [] => none
  | p :: ps, c :: cs => if p = c then dropLeading? ps cs else none

theorem dropLeading?_eq_some_iff {ps cs rest : List Char} :
    dropLeading? ps cs = some rest ↔ cs = ps ++ rest := by
  induction ps generalizing cs with
  | nil => simp [dropLeading?, eq_comm]
  | cons p ps ih =>
    cases cs with
    | nil => simp [dropLeading?]
    | cons c cs =>
      by_cases h : p = c
      · subst h; simp [dropLeading?, ih]
      · simp [dropLeading?, h]
        intro hc
        exact absurd hc.symm h

/-- Replaces every occurrence of a part; the first argument counts characters of an occurrence that
are still to be passed over. -/
def replaceFrom (part new : List Char) : Nat → List Char → List Char
  | _, [] => []
  | skip + 1, _ :: cs => replaceFrom part new skip cs
  | 0, c :: cs =>
    if (dropLeading? part (c :: cs)).isSome then new ++ replaceFrom part new (part.length - 1) cs
    else c :: replaceFrom part new 0 cs

def replaceAll (part new cs : List Char) : List Char :=
  if part = [] then cs else replaceFrom part new 0 cs

def replaceFirst (c : Char) (new : List Char) : List Char → List Char
  | [] => []
  | d :: ds => if d = c then new ++ ds else d :: replaceFirst c new ds

def splitAt? (c : Char) : List Char → Option (List Char × List Char)
  | [] => none
  | d :: ds => if d = c then some ([], ds) else (splitAt? c ds).map fun (a, b) => (d :: a, b)

theorem splitAt?_eq_some {c : Char} {cs a b : List Char} (h : splitAt? c cs = some (a, b)) :
    cs = a ++ c :: b ∧ c ∉ a := by
  induction cs generalizing a with
  | nil => simp [splitAt?] at h
  | cons d ds ih =>
    unfold splitAt? at h
    split at h
    · next hd => simp_all
    · next hd =>
      obtain ⟨⟨x, y⟩, hx, hxy⟩ := Option.map_eq_some_iff.1 h
      simp only [Prod.mk.injEq] at hxy
      obtain ⟨rfl, rfl⟩ := hxy
      obtain ⟨h₁, h₂⟩ := ih hx
      exact ⟨by simp [← h₁], by simp [h₂, Ne.symm hd]⟩

def splitOnChar (c : Char) : List Char → List (List Char)
  | [] => [[]]
  | d :: ds =>
    if d = c then [] :: splitOnChar c ds
    else
      match splitOnChar c ds with
      | [] => [[d]]
      | part :: parts => (d :: part) :: parts

def splitOnText (part : List Char) : List Char → Option (List Char × List Char)
  | [] => if part = [] then some ([], []) else none
  | c :: cs =>
    match dropLeading? part (c :: cs) with
    | some rest => some ([], rest)
    | none => (splitOnText part cs).map fun (a, b) => (c :: a, b)

end Text
end SeriesAlarm
