import SeriesAlarm.Proofs.Engine.Copies

/-!
# No group is lost or sent twice

The journal of an engine agrees with its buffers, whatever ticks, reloads and deliveries come one
after another. Each copy of a group that was handed to an action is in the buffer of that action, or
one entry took it out: a delivery, the retention of the action, or a rule set without the action.
-/

namespace SeriesAlarm

/-- What cutoffs leave of a group: some of its results, which explain the same test at the same
instant. -/
def ResultGroup.IsRestOf (g whole : ResultGroup) : Prop :=
  ∃ test t, whole.Explains test t ∧ g.Explains test t ∧ g.Sublist whole

theorem ResultGroup.IsRestOf.upTo {g whole : ResultGroup} (h : g.IsRestOf whole)
    (cutoff : Option Nat) : (g.upTo cutoff).IsRestOf whole := by
  obtain ⟨test, t, hwhole, hg, hsub⟩ := h
  exact ⟨test, t, hwhole, hg.upTo cutoff, (upTo_sublist cutoff g).trans hsub⟩

/-- The place of a copy has its reason in the journal. -/
def Copy.IsAccounted (j : Journal) (id : String) (c : Copy) : Prop :=
  match c.place with
  | .buffered g => g.IsRestOf c.group
  | .delivered n g => g.IsRestOf c.group ∧
      ∃ a now note, j[n]? = some (.ran a now (some note)) ∧ a.id = id
  | .expired n g => g.IsRestOf c.group ∧
      ∃ a now sent expiry t, j[n]? = some (.ran a now sent) ∧ a.id = id ∧
        a.expiry? now = some expiry ∧ c.group.timestamp? = some t ∧ t < expiry
  | .dropped n => ∃ d, j[n]? = some (.replaced d) ∧ d.find? id = none

/-- The buffers hold exactly the copies that the journal places there, in the order in which these
were handed over, and each delivery was made of exactly the copies it took out. -/
structure Journal.Agrees (d : Dispatcher) (j : Journal) : Prop where
  sorted : d.Sorted
  buffers : ∀ a ∈ d, a.buffered = j.held a.id
  elsewhere : ∀ id, id ∉ d.ids → j.held id = []
  accounted : ∀ id, ∀ c ∈ j.copies id, c.IsAccounted j id
  deliveries : ∀ (n : Nat) (a : Action) (now : Instant) (note : Notification),
    j[n]? = some (Entry.ran a now (some note)) →
      a.wording.render a.sender (j.deliveredAt n a.id) now = some note

namespace Action

theorem addResults_of_explains {g : ResultGroup} (hg : ∃ test t, g.Explains test t) (a : Action) :
    a.addResults g = { a with buffered := a.buffered ++ [g.upTo a.cutoff] } := by
  obtain ⟨test, t, hg⟩ := hg
  have hkept : (g.upTo a.cutoff).isEmpty = false :=
    List.isEmpty_eq_false_iff.mpr (hg.upTo a.cutoff).ne_nil
  change (if (g.upTo a.cutoff).isEmpty then a else _) = _
  rw [hkept]
  rfl

theorem foldl_addResults {groups : List ResultGroup}
    (hgroups : ∀ g ∈ groups, ∃ test t, g.Explains test t) (a : Action) :
    groups.foldl Action.addResults a =
      { a with buffered := a.buffered ++ groups.map (·.upTo a.cutoff) } := by
  induction groups generalizing a with
  | nil => simp
  | cons g groups ih =>
    rw [List.foldl_cons, addResults_of_explains (hgroups g List.mem_cons_self),
      ih fun g' hg' => hgroups g' (List.mem_cons_of_mem g hg')]
    simp

theorem expires_eq {a : Action} {now expiry : Instant} (h : a.expiry? now = some expiry)
    (g : ResultGroup) : a.expires now g = !isFresh expiry g := by
  simp [expires, h]

theorem expires_iff {a : Action} {now : Instant} {g : ResultGroup} :
    a.expires now g = true ↔ ∃ expiry, a.expiry? now = some expiry ∧ isFresh expiry g = false := by
  cases hexpiry : a.expiry? now <;> simp [expires, hexpiry]

end Action

/-- A replaced action takes over the groups of the action with its id, cut off anew. -/
theorem Engine.buffered_keepAction {e : Engine} {a : Action} (empty : a.buffered = [])
    (h : ∀ old ∈ e.actions, ∀ g ∈ old.buffered, ∃ test t, g.Explains test t) :
    (e.keepAction a).buffered =
      match e.actions.find? a.id with
      | some old => old.buffered.map (·.upTo a.cutoff)
      | none => [] := by
  unfold Engine.keepAction
  cases hfind : e.actions.find? a.id with
  | none => exact empty
  | some old =>
    have hmem : old ∈ e.actions := List.mem_of_find?_eq_some hfind
    dsimp only
    rw [Action.foldl_addResults (h old hmem)]
    simp [empty]

theorem Engine.cutoff_keepAction (e : Engine) (a : Action) :
    (e.keepAction a).cutoff = a.cutoff := by
  have hfold (groups : List ResultGroup) : ∀ b : Action,
      (groups.foldl Action.addResults b).cutoff = b.cutoff := by
    induction groups with
    | nil => exact fun b => rfl
    | cons g groups ih => exact fun b => (ih _).trans (b.cutoff_addResults g)
  unfold keepAction
  split
  · exact hfold _ _
  · rfl

namespace Journal

theorem getElem?_snoc_of_lt {j : Journal} {n : Nat} (h : n < j.length) (x : Entry) :
    (j ++ [x])[n]? = j[n]? := List.getElem?_append_left h

theorem getElem?_snoc_of_eq_some {j : Journal} {n : Nat} {y : Entry} (h : j[n]? = some y)
    (x : Entry) : (j ++ [x])[n]? = some y :=
  (getElem?_snoc_of_lt (List.getElem?_eq_some_iff.mp h).1 x).trans h

end Journal

namespace Copy

variable {j : Journal} {id : String} {c : Copy}

theorem IsAccounted.snoc (h : c.IsAccounted j id) (x : Entry) : c.IsAccounted (j ++ [x]) id := by
  obtain ⟨whole, place⟩ := c
  cases place with
  | buffered g => exact h
  | delivered n g =>
    obtain ⟨hrest, a, now, note, hj, hid⟩ := h
    exact ⟨hrest, a, now, note, Journal.getElem?_snoc_of_eq_some hj x, hid⟩
  | expired n g =>
    obtain ⟨hrest, a, now, sent, expiry, t, hj, hid⟩ := h
    exact ⟨hrest, a, now, sent, expiry, t, Journal.getElem?_snoc_of_eq_some hj x, hid⟩
  | dropped n =>
    obtain ⟨d, hj, hd⟩ := h
    exact ⟨d, Journal.getElem?_snoc_of_eq_some hj x, hd⟩

/-- An entry that moves a copy is the reason for its new place. -/
theorem IsAccounted.after (h : c.IsAccounted j id) (x : Entry) :
    (c.after id j.length x).IsAccounted (j ++ [x]) id := by
  have hlast : (j ++ [x])[j.length]? = some x := by simp
  obtain ⟨whole, place⟩ := c
  cases place with
  | buffered g =>
    have hrest : g.IsRestOf whole := h
    cases x with
    | handed => exact hrest
    | ran a now sent =>
      simp only [Copy.after]
      split
      · exact hrest
      next hid =>
      have hid : a.id = id := not_not.mp hid
      split
      · next hexpires =>
        obtain ⟨expiry, hexpiry, hstale⟩ := Action.expires_iff.mp hexpires
        obtain ⟨test, t, hwhole, hg, -⟩ := hrest
        have hlt : t < expiry := by
          simpa [Action.isFresh, hg.timestamp?, Instant.le_def, Instant.lt_def] using hstale
        exact ⟨h, a, now, sent, expiry, t, hlast, hid, hexpiry, hwhole.timestamp?, hlt⟩
      · cases sent with
        | none => exact hrest
        | some note => exact ⟨hrest, a, now, note, hlast, hid⟩
    | replaced d =>
      simp only [Copy.after]
      split
      · exact hrest.upTo _
      · next hnone => exact ⟨d, hlast, hnone⟩
  | delivered n g => cases x <;> exact h.snoc _
  | expired n g => cases x <;> exact h.snoc _
  | dropped n => cases x <;> exact h.snoc _

theorem IsAccounted.deliveredAt?_length (h : c.IsAccounted j id) :
    c.deliveredAt? j.length = none := by
  obtain ⟨whole, place⟩ := c
  cases place with
  | delivered n g =>
    obtain ⟨-, a, now, note, hj, -⟩ := h
    have hlt : n < j.length := (List.getElem?_eq_some_iff.mp hj).1
    exact if_neg (Nat.ne_of_lt hlt)
  | _ => rfl

end Copy

namespace Journal

variable {d d' : Dispatcher} {j : Journal} {x : Entry}

theorem Agrees.rest_of_mem_held (h : Agrees d j) {id : String} {g : ResultGroup}
    (hg : g ∈ j.held id) : ∃ test t, g.Explains test t := by
  obtain ⟨c, hc, hleft⟩ := List.mem_filterMap.mp hg
  have hc := h.accounted id c hc
  obtain ⟨whole, place⟩ := c
  cases place with
  | buffered g' =>
    cases hleft
    obtain ⟨test, t, -, hg, -⟩ : g.IsRestOf whole := hc
    exact ⟨test, t, hg⟩
  | _ => cases hleft

theorem Agrees.mem_explains (h : Agrees d j) :
    ∀ a ∈ d, ∀ g ∈ a.buffered, ∃ test t, g.Explains test t := by
  intro a ha g hg
  rw [h.buffers a ha] at hg
  exact h.rest_of_mem_held hg

theorem Agrees.accounted_snoc (h : Agrees d j)
    (hx : ∀ id, ∀ c ∈ x.newCopies id, c.IsAccounted (j ++ [x]) id) :
    ∀ id, ∀ c ∈ copies id (j ++ [x]), c.IsAccounted (j ++ [x]) id := by
  intro id c hc
  rw [copies_snoc] at hc
  rcases List.mem_append.mp hc with hc | hc
  · obtain ⟨c₀, hc₀, rfl⟩ := List.mem_map.mp hc
    exact (h.accounted id c₀ hc₀).after x
  · exact hx id c hc

theorem Agrees.delivered_snoc (h : Agrees d j)
    (hx : ∀ (a : Action) (now : Instant) (note : Notification), x = .ran a now (some note) →
      a.wording.render a.sender (deliveredAt j.length a.id (j ++ [x])) now = some note) :
    ∀ (n : Nat) (a : Action) (now : Instant) (note : Notification),
      (j ++ [x])[n]? = some (Entry.ran a now (some note)) →
        a.wording.render a.sender (deliveredAt n a.id (j ++ [x])) now = some note := by
  intro n a now note hn
  by_cases hlast : n = j.length
  · subst hlast
    rw [List.getElem?_append_right (Nat.le_refl _), Nat.sub_self] at hn
    exact hx a now note (Option.some.inj hn)
  · have hlt : n < j.length := by
      have hbound := (List.getElem?_eq_some_iff.mp hn).1
      simp only [List.length_append, List.length_singleton] at hbound
      omega
    rw [getElem?_snoc_of_lt hlt] at hn
    rw [deliveredAt_snoc_of_ne hlast]
    exact h.deliveries n a now note hn

theorem Agrees.handed (h : Agrees d j) {id : String} {g : ResultGroup} (known : id ∈ d.ids)
    (explains : ∃ test t, g.Explains test t) :
    Agrees (d.forward id g) (j ++ [.handed id (d.cutoff id) g]) := by
  have hids := Dispatcher.ids_forward d id g
  refine ⟨?_, ?_, ?_, h.accounted_snoc ?_, h.delivered_snoc fun a now note hx => by cases hx⟩
  · unfold Dispatcher.Sorted
    rw [hids]
    exact h.sorted
  · intro b hb
    obtain ⟨a, ha, rfl⟩ := List.mem_map.mp hb
    split
    · next hid =>
      have hfind : d.find? id = some a := h.sorted.find?_eq_some_iff.mpr ⟨ha, hid⟩
      have hcutoff : d.cutoff id = a.cutoff := by simp [Dispatcher.cutoff, hfind]
      dsimp only
      rw [Action.addResults_of_explains explains, held_handed, if_pos hid.symm, hcutoff]
      exact congrArg (· ++ _) (h.buffers a ha)
    · next hid =>
      rw [held_handed, if_neg (Ne.symm hid), List.append_nil]
      exact h.buffers a ha
  · intro i hi
    rw [hids] at hi
    have hne : id ≠ i := fun heq => hi (heq ▸ known)
    rw [held_handed, if_neg hne, List.append_nil]
    exact h.elsewhere i hi
  · intro i c hc
    simp only [Entry.newCopies] at hc
    split at hc
    · rw [List.mem_singleton.mp hc]
      obtain ⟨test, t, hg⟩ := explains
      exact ⟨test, t, hg, hg.upTo _, ResultGroup.upTo_sublist _ g⟩
    · cases hc

theorem Agrees.ran {before after : List Action} {a next : Action}
    (h : Agrees (before ++ a :: after) j) {now expiry : Instant} {sent : Option Notification}
    (hexpiry : a.expiry? now = some expiry) (hid : next.id = a.id)
    (left : next.buffered = if sent.isSome then [] else (a.dropBefore expiry).buffered)
    (render : ∀ n, sent = some n →
      a.wording.render a.sender (a.dropBefore expiry).buffered now = some n) :
    Agrees (before ++ next :: after) (j ++ [.ran a now sent]) := by
  have hids : Dispatcher.ids (before ++ next :: after) = Dispatcher.ids (before ++ a :: after) := by
    simp [Dispatcher.ids, hid]
  have hmem : a ∈ before ++ a :: after := List.mem_append_right _ List.mem_cons_self
  have hfresh : (a.dropBefore expiry).buffered =
      (j.held a.id).filter fun g => !a.expires now g := by
    rw [← h.buffers a hmem]
    refine List.filter_congr fun g _ => ?_
    rw [Action.expires_eq hexpiry, Bool.not_not]
  have hother : ∀ b ∈ before ++ after, a.id ≠ b.id := by
    have hnodup := h.sorted.nodup
    simp only [Dispatcher.ids, List.map_append, List.map_cons] at hnodup
    have hnot := (List.nodup_middle.mp hnodup).notMem
    intro b hb heq
    exact hnot (heq ▸ List.map_append ▸ List.mem_map_of_mem hb)
  refine ⟨?_, ?_, ?_, h.accounted_snoc ?_, h.delivered_snoc ?_⟩
  · unfold Dispatcher.Sorted
    rw [hids]
    exact h.sorted
  · intro b hb
    have hcases : b = next ∨ b ∈ before ++ after := by
      simp only [List.mem_append, List.mem_cons] at hb ⊢
      tauto
    rcases hcases with rfl | hb
    · rw [hid, held_ran, left, hfresh]
    · have hold : b ∈ before ++ a :: after := by
        simp only [List.mem_append, List.mem_cons] at hb ⊢
        tauto
      rw [held, copies_ran_of_ne (hother b hb)]
      exact h.buffers b hold
  · intro i hi
    rw [hids] at hi
    have hne : a.id ≠ i := fun heq => hi (heq ▸ List.mem_map_of_mem hmem)
    rw [held, copies_ran_of_ne hne]
    exact h.elsewhere i hi
  · intro i c hc
    cases hc
  · intro b now' note hx
    cases hx
    rw [deliveredAt_ran fun c hc => (h.accounted a.id c hc).deliveredAt?_length, ← hfresh]
    exact render note rfl

theorem Agrees.replaced {e : Engine} (h : Agrees e.actions j) {fresh : Dispatcher}
    (sorted : fresh.Sorted) (empty : ∀ a ∈ fresh, a.buffered = []) :
    Agrees (fresh.map e.keepAction) (j ++ [.replaced fresh]) := by
  have hids : Dispatcher.ids (fresh.map e.keepAction) = fresh.ids :=
    Dispatcher.ids_map e.id_keepAction
  refine ⟨?_, ?_, ?_, h.accounted_snoc fun id c hc => (by cases hc),
    h.delivered_snoc fun a now note hx => (by cases hx)⟩
  · unfold Dispatcher.Sorted
    rw [hids]
    exact sorted
  · intro b hb
    obtain ⟨a, ha, rfl⟩ := List.mem_map.mp hb
    have hfind : fresh.find? a.id = some a := sorted.find?_eq_some_iff.mpr ⟨ha, rfl⟩
    rw [e.id_keepAction, held_replaced, hfind, e.buffered_keepAction (empty a ha) h.mem_explains]
    split
    · next old hold =>
      obtain ⟨hmem, hid⟩ := h.sorted.find?_eq_some_iff.mp hold
      rw [h.buffers old hmem, hid]
    · next hnone =>
      have hnot : a.id ∉ e.actions.ids := by
        intro hin
        obtain ⟨b, hb, hid⟩ := List.mem_map.mp hin
        exact Dispatcher.find?_eq_none_iff.mp hnone b hb hid
      rw [h.elsewhere a.id hnot]
      rfl
  · intro i hi
    rw [hids] at hi
    have hnone : fresh.find? i = none :=
      Dispatcher.find?_eq_none_iff.mpr fun a ha heq => hi (heq ▸ List.mem_map_of_mem ha)
    rw [held_replaced, hnone]

theorem Agrees.follows {j' : Journal} (h : Agrees d j) (hf : Dispatcher.Follows d j' d') :
    Agrees d' (j ++ j') := by
  induction hf generalizing j with
  | nil d => rwa [List.append_nil]
  | cons head tail ih =>
    rw [List.append_cons]
    apply ih
    cases head with
    | handed known explains => exact h.handed known explains
    | ran hexpiry hid left render => exact h.ran hexpiry hid left render
    | replaced sorted empty => exact h.replaced sorted empty

end Journal
end SeriesAlarm
