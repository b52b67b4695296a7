import Mathlib.Data.List.Induction
import SeriesAlarm.Proofs.Engine.Journal

/-!
# Copies of a group

Every time a group is handed to an action, a copy of it comes into being. The journal tells where
each copy is: in the buffer of the action, or taken out of it by one entry for one of three reasons.
The main statement says that after any entries the buffers hold exactly the copies that the journal
places there, and that each delivery was made of exactly the copies it took out.
-/

namespace SeriesAlarm

/-- Where a copy is, and what cutoffs have left of it. An entry that took the copy out of the buffer
is known by its number. -/
inductive Place
  | buffered (left : ResultGroup)
  | delivered (entry : Nat) (left : ResultGroup)
  | expired (entry : Nat) (left : ResultGroup)
  | dropped (entry : Nat)

/-- A group as it was handed to an action, and where that copy of it is. -/
structure Copy where
  group : ResultGroup
  place : Place

def Action.expires (a : Action) (now : Instant) (g : ResultGroup) : Bool :=
  (a.expiry? now).any fun expiry => !Action.isFresh expiry g

namespace Copy

/-- Where a copy that was handed to the action `id` is after the entry with number `n`. -/
def after (id : String) (n : Nat) (x : Entry) (c : Copy) : Copy :=
  match x, c.place with
  | .ran a now sent, .buffered g =>
    if a.id ≠ id then c
    else if a.expires now g then { c with place := .expired n g }
    else if sent.isSome then { c with place := .delivered n g }
    else c
  | .replaced d, .buffered g =>
    match d.find? id with
    | some a => { c with place := .buffered (g.upTo a.cutoff) }
    | none => { c with place := .dropped n }
  | _, _ => c

def left? (c : Copy) : Option ResultGroup :=
  match c.place with
  | .buffered g => some g
  | _ => none

def deliveredAt? (n : Nat) (c : Copy) : Option ResultGroup :=
  match c.place with
  | .delivered m g => if m = n then some g else none
  | _ => none

end Copy

def Entry.newCopies (id : String) : Entry → List Copy
  | .handed id' cutoff g => if id' = id then [{ group := g, place := .buffered (g.upTo cutoff) }] else []
  | _ => []

namespace Journal

/-- The copies handed to the action `id`, in order, each where it is after the journal. -/
def copies (id : String) (j : Journal) : List Copy :=
  j.zipIdx.foldl (fun cs x => cs.map (·.after id x.2 x.1) ++ x.1.newCopies id) []

theorem copies_snoc (id : String) (j : Journal) (x : Entry) :
    copies id (j ++ [x]) = (copies id j).map (·.after id j.length x) ++ x.newCopies id := by
  simp [copies, List.zipIdx_append]

/-- The groups that the buffer of the action `id` should hold. -/
def held (id : String) (j : Journal) : List ResultGroup := (copies id j).filterMap Copy.left?

def deliveredAt (n : Nat) (id : String) (j : Journal) : List ResultGroup :=
  (copies id j).filterMap (Copy.deliveredAt? n)

theorem held_handed (id id' : String) (cutoff : Option Nat) (g : ResultGroup) (j : Journal) :
    held id (j ++ [.handed id' cutoff g]) =
      held id j ++ if id' = id then [g.upTo cutoff] else [] := by
  have hsame (c : Copy) : c.after id j.length (.handed id' cutoff g) = c := rfl
  simp only [held, copies_snoc, hsame, List.map_id', List.filterMap_append, Entry.newCopies]
  congr 1
  split <;> simp [Copy.left?]

theorem copies_ran_of_ne {id : String} {a : Action} (h : a.id ≠ id) (now : Instant)
    (sent : Option Notification) (j : Journal) :
    copies id (j ++ [.ran a now sent]) = copies id j := by
  have hsame (c : Copy) : c.after id j.length (.ran a now sent) = c := by
    unfold Copy.after
    split
    · next heq _ =>
      cases heq
      rw [if_pos h]
    · next heq _ => cases heq
    · rfl
  simp only [copies_snoc, hsame, List.map_id', Entry.newCopies, List.append_nil]

end Journal

namespace Copy

theorem left?_after_ran (n : Nat) (a : Action) (now : Instant) (sent : Option Notification)
    (c : Copy) : (c.after a.id n (.ran a now sent)).left? =
      c.left?.bind fun g => if a.expires now g || sent.isSome then none else some g := by
  obtain ⟨whole, place⟩ := c
  cases place with
  | buffered g =>
    by_cases hexpires : a.expires now g = true
    · simp [after, left?, hexpires]
    · cases sent <;> simp [after, left?, hexpires]
  | _ => rfl

theorem left?_after_replaced (id : String) (n : Nat) (d : Dispatcher) (c : Copy) :
    (c.after id n (.replaced d)).left? =
      c.left?.bind fun g => (d.find? id).map fun a => g.upTo a.cutoff := by
  obtain ⟨whole, place⟩ := c
  cases place with
  | buffered g => cases hfind : d.find? id <;> simp [after, left?, hfind]
  | _ => rfl

theorem deliveredAt?_after_of_ne {m n : Nat} (h : m ≠ n) (id : String) (x : Entry) (c : Copy) :
    (c.after id n x).deliveredAt? m = c.deliveredAt? m := by
  obtain ⟨whole, place⟩ := c
  cases place with
  | buffered g =>
    simp only [after]
    split
    · repeat' split
      all_goals simp [deliveredAt?, Ne.symm h]
    · split <;> simp [deliveredAt?]
    · rfl
  | _ => cases x <;> rfl

theorem deliveredAt?_after_ran {n : Nat} {c : Copy} (h : c.deliveredAt? n = none) (a : Action)
    (now : Instant) (note : Notification) :
    (c.after a.id n (.ran a now (some note))).deliveredAt? n =
      c.left?.bind fun g => if a.expires now g then none else some g := by
  obtain ⟨whole, place⟩ := c
  cases place with
  | buffered g =>
    by_cases hexpires : a.expires now g = true <;> simp [after, deliveredAt?, left?, hexpires]
  | delivered m g => exact h
  | _ => rfl

end Copy

namespace Journal

theorem held_ran (a : Action) (now : Instant) (sent : Option Notification) (j : Journal) :
    held a.id (j ++ [.ran a now sent]) =
      if sent.isSome then [] else (held a.id j).filter fun g => !a.expires now g := by
  have hstep : held a.id (j ++ [.ran a now sent]) = (held a.id j).filterMap fun g =>
      if a.expires now g || sent.isSome then none else some g := by
    simp only [held, copies_snoc, Entry.newCopies, List.append_nil, List.filterMap_map,
      List.filterMap_filterMap]
    congr 1
    funext c
    exact c.left?_after_ran _ a now sent
  rw [hstep]
  cases sent with
  | some note => simp
  | none =>
    rw [← List.filterMap_eq_filter]
    congr 1
    funext g
    cases hexpires : a.expires now g <;> simp [Option.guard, hexpires]

theorem held_replaced (id : String) (d : Dispatcher) (j : Journal) :
    held id (j ++ [.replaced d]) =
      match d.find? id with
      | some a => (held id j).map (·.upTo a.cutoff)
      | none => [] := by
  have hstep : held id (j ++ [.replaced d]) = (held id j).filterMap fun g =>
      (d.find? id).map fun a => g.upTo a.cutoff := by
    simp only [held, copies_snoc, Entry.newCopies, List.append_nil, List.filterMap_map,
      List.filterMap_filterMap]
    congr 1
    funext c
    exact c.left?_after_replaced id _ d
  rw [hstep]
  cases d.find? id with
  | some a => simp
  | none => simp

theorem deliveredAt_snoc_of_ne {n : Nat} {j : Journal} (h : n ≠ j.length) (id : String) (x : Entry) :
    deliveredAt n id (j ++ [x]) = deliveredAt n id j := by
  have hnew : (x.newCopies id).filterMap (Copy.deliveredAt? n) = [] := by
    unfold Entry.newCopies
    split
    · split <;> simp [Copy.deliveredAt?]
    · rfl
  simp only [deliveredAt, copies_snoc, List.filterMap_append, hnew, List.append_nil,
    List.filterMap_map]
  congr 1
  funext c
  exact c.deliveredAt?_after_of_ne h id x

theorem deliveredAt_ran {j : Journal} {a : Action}
    (h : ∀ c ∈ copies a.id j, c.deliveredAt? j.length = none) (now : Instant)
    (note : Notification) :
    deliveredAt j.length a.id (j ++ [.ran a now (some note)]) =
      (held a.id j).filter fun g => !a.expires now g := by
  simp only [deliveredAt, held, copies_snoc, Entry.newCopies, List.append_nil, List.filterMap_map,
    ← List.filterMap_eq_filter, List.filterMap_filterMap]
  refine List.filterMap_congr fun c hc => ?_
  rw [Function.comp_apply, Copy.deliveredAt?_after_ran (h c hc)]
  congr 1
  funext g
  cases hexpires : a.expires now g <;> simp [Option.guard, hexpires]

end Journal

/-- What a copy may become: the same group, and once out of the buffer the same for good. -/
structure Copy.Becomes (c c' : Copy) : Prop where
  group : c'.group = c.group
  settled : c.left? = none → c' = c

namespace Copy

theorem Becomes.refl (c : Copy) : c.Becomes c := ⟨rfl, fun _ => rfl⟩

theorem Becomes.trans {c c' c'' : Copy} (h : c.Becomes c') (h' : c'.Becomes c'') :
    c.Becomes c'' := by
  refine ⟨h'.group.trans h.group, fun hleft => ?_⟩
  have hsame : c' = c := h.settled hleft
  subst hsame
  exact h'.settled hleft

theorem becomes_after (id : String) (n : Nat) (x : Entry) (c : Copy) : c.Becomes (c.after id n x) := by
  obtain ⟨whole, place⟩ := c
  cases place with
  | buffered g =>
    refine ⟨?_, fun hleft => by cases hleft⟩
    simp only [after]
    split
    · repeat' split
      all_goals rfl
    · split <;> rfl
    · rfl
  | _ => cases x <;> exact .refl _

end Copy

def Entry.handedTo? (id : String) : Entry → Option ResultGroup
  | .handed id' _ g => if id' = id then some g else none
  | _ => none

namespace Journal

/-- Every handing over makes one copy, and nothing else does. -/
theorem map_group_copies (id : String) (j : Journal) :
    (copies id j).map Copy.group = j.filterMap (Entry.handedTo? id) := by
  induction j using List.reverseRec with
  | nil => rfl
  | append_singleton j x ih =>
    have hgroup : (Copy.group ∘ fun c => c.after id j.length x) = Copy.group := by
      funext c
      exact (c.becomes_after id j.length x).group
    have hnew : (x.newCopies id).map Copy.group = [x].filterMap (Entry.handedTo? id) := by
      cases x with
      | handed id' cutoff g => by_cases hid : id' = id <;> simp [Entry.newCopies, Entry.handedTo?, hid]
      | _ => rfl
    rw [copies_snoc, List.map_append, List.map_map, hgroup, ih, hnew, List.filterMap_append]

theorem getElem?_copies_append {id : String} {j : Journal} {k : Nat} {c : Copy}
    (h : (copies id j)[k]? = some c) (j' : Journal) :
    ∃ c', (copies id (j ++ j'))[k]? = some c' ∧ c.Becomes c' := by
  induction j' using List.reverseRec with
  | nil => exact ⟨c, by rwa [List.append_nil], .refl c⟩
  | append_singleton j' x ih =>
    obtain ⟨c', hc', hbecomes⟩ := ih
    refine ⟨c'.after id (j ++ j').length x, ?_, hbecomes.trans (c'.becomes_after id _ x)⟩
    rw [← List.append_assoc, copies_snoc]
    have hlt : k < (copies id (j ++ j')).length := (List.getElem?_eq_some_iff.mp hc').1
    rw [List.getElem?_append_left (by rwa [List.length_map]), List.getElem?_map, hc']
    rfl

end Journal
end SeriesAlarm
