/-!
# Sorted names

Names in the order of their characters, each once.
-/

namespace SeriesAlarm

def insertName (name : String) : List String → List String
  | [] => [name]
  | x :: xs =>
    if name < x then name :: x :: xs
    else if name = x then x :: xs
    else x :: insertName name xs

def sortedNames (names : List String) : List String :=
  names.foldl (fun acc name => insertName name acc) []

theorem mem_insertName {name x : String} {xs : List String} :
    x ∈ insertName name xs ↔ x = name ∨ x ∈ xs := by
  induction xs with
  | nil => simp [insertName]
  | cons y ys ih =>
    unfold insertName
    split
    · simp
    · split
      · next h => subst h; simp
      · simp only [List.mem_cons, ih]
        exact or_left_comm

end SeriesAlarm
