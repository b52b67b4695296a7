import SeriesAlarm.Expr.Leaf
import SeriesAlarm.Proofs.Text.Occurrence
import SeriesAlarm.Proofs.Text.Written

/-!
# Tokens of a message

A template read once from its front is a sequence of literal characters and of slots, one for each
token. The tokens are replaced in twelve rounds, each of which searches the whole text that the
round before it left, so a round may also find a token that an identifier has brought into the text
or has completed there. If no round finds one, every slot is filled with its own text and nothing
else changes.
-/

namespace SeriesAlarm

open Text

namespace Instant

def isStampChar (c : Char) : Bool := isDigit c || ['-', '+', ':', ' '].contains c

theorem isStampChar_of_mem_zeroPad (width n : Nat) :
    ∀ c ∈ (zeroPad width n).toList, isStampChar c = true := by
  intro c h
  rw [zeroPad, String.toList_append, String.toList_ofList, Nat.repr_eq_ofList_toDigits,
    String.toList_ofList, List.mem_append] at h
  rcases h with h | h
  · rw [List.eq_of_mem_replicate h]
    rfl
  · rw [isStampChar, isDigit_of_mem_toDigits h, Bool.true_or]

theorem isStampChar_of_mem_stamp (t : Instant) : ∀ c ∈ t.stamp.toList, isStampChar c = true := by
  have hpad := isStampChar_of_mem_zeroPad
  have hdash : ∀ c ∈ "-".toList, isStampChar c = true := List.all_eq_true.mp (by decide)
  have hplus : ∀ c ∈ "+".toList, isStampChar c = true := List.all_eq_true.mp (by decide)
  have hcolon : ∀ c ∈ ":".toList, isStampChar c = true := List.all_eq_true.mp (by decide)
  have hblank : ∀ c ∈ " ".toList, isStampChar c = true := List.all_eq_true.mp (by decide)
  have hyear (year : Int) : ∀ c ∈ (yearText year).toList, isStampChar c = true := by
    unfold yearText
    split
    · exact hpad 4 _
    · rw [String.toList_append, List.forall_mem_append]
      refine ⟨?_, hpad 4 _⟩
      split
      · exact hdash
      · exact hplus
  simp only [stamp, dateText, clockText, String.toList_append, List.forall_mem_append]
  exact ⟨⟨⟨⟨⟨⟨hyear _, hdash⟩, hpad 2 _⟩, hdash⟩, hpad 2 _⟩, hblank⟩,
    ⟨⟨⟨hpad 2 _, hcolon⟩, hpad 2 _⟩, hcolon⟩, hpad 2 _⟩

theorem stamp_ne_nil (t : Instant) : t.stamp.toList ≠ [] := by
  simp [stamp]

end Instant

namespace Message

variable {identifiers : List String} {text : Nat → List Char} {cs : List Char} {ps qs : List Piece}
  {k j : Nat} {c : Char}

def token (k : Nat) : List Char :=
  if k < 10 then identifierToken k else if k = 10 then "$DATETIME".toList else "$VALUE".toList

def identifierText (identifiers : List String) (k : Nat) : List Char :=
  (identifiers.getD k "").toList

def tokenText (t : Instant) (value : Float) (identifiers : List String) (k : Nat) : List Char :=
  if k < 10 then identifierText identifiers k
  else if k = 10 then t.stamp.toList else (valueText value).toList

theorem replacements_eq (t : Instant) (value : Float) (identifiers : List String) :
    replacements t value identifiers =
      (List.range 12).map fun k => ⟨token k, tokenText t value identifiers k⟩ := rfl

theorem isMarked_token : ∀ k < 12, IsMarked '$' (token k) := by decide

theorem token_prefixFree : ∀ j < 12, ∀ k < 12, token j <+: token k → j = k := by decide

theorem eq_of_prefixes (hj : j < 12) (hk : k < 12) (hjs : token j <+: cs)
    (hks : token k <+: cs) : j = k := by
  rcases List.prefix_or_prefix_of_prefix hjs hks with h | h
  · exact token_prefixFree j hj k hk h
  · exact (token_prefixFree k hk j hj h).symm

/-- A character that stays, or the place of the token of a round. -/
inductive Piece
  | literal (c : Char)
  | slot (k : Nat)
  deriving DecidableEq, Repr

def tokenAt? (cs : List Char) : Option Nat :=
  (List.range 12).find? fun k => (token k).isPrefixOf cs

/-- Reads a text from its front; the first argument counts characters of a token that are still to
be passed over. -/
def piecesFrom : Nat → List Char → List Piece
  | _, [] => []
  | skip + 1, _ :: cs => piecesFrom skip cs
  | 0, c :: cs =>
    match tokenAt? (c :: cs) with
    | some k => .slot k :: piecesFrom ((token k).length - 1) cs
    | none => .literal c :: piecesFrom 0 cs

def pieces (template : List Char) : List Piece := piecesFrom 0 template

theorem tokenAt?_eq_some_iff : tokenAt? cs = some k ↔ k < 12 ∧ token k <+: cs := by
  have hfound {j : Nat} (h : tokenAt? cs = some j) : j < 12 ∧ token j <+: cs := by
    have hbegins := List.find?_some h
    exact ⟨List.mem_range.mp (List.mem_of_find?_eq_some h), List.isPrefixOf_iff_prefix.mp hbegins⟩
  refine ⟨hfound, ?_⟩
  rintro ⟨hk, hbegins⟩
  have hsome : (tokenAt? cs).isSome :=
    List.find?_isSome.mpr ⟨k, List.mem_range.mpr hk, List.isPrefixOf_iff_prefix.mpr hbegins⟩
  obtain ⟨j, hj⟩ := Option.isSome_iff_exists.mp hsome
  rw [hj, eq_of_prefixes (hfound hj).1 hk (hfound hj).2 hbegins]

theorem piecesFrom_eq (skip : Nat) (cs : List Char) :
    piecesFrom skip cs = pieces (cs.drop skip) := by
  induction cs generalizing skip with
  | nil => simp [piecesFrom, pieces]
  | cons c cs ih =>
    cases skip with
    | zero => rfl
    | succ skip => exact ih skip

theorem pieces_token (hk : k < 12) (cs : List Char) :
    pieces (token k ++ cs) = .slot k :: pieces cs := by
  have hat : tokenAt? (token k ++ cs) = some k :=
    tokenAt?_eq_some_iff.mpr ⟨hk, List.prefix_append ..⟩
  obtain ⟨c, rest, hcons⟩ := List.exists_cons_of_ne_nil (isMarked_token k hk).ne_nil
  have hdrop : (rest ++ cs).drop ((token k).length - 1) = cs := by simp [hcons]
  rw [hcons, List.cons_append] at hat
  rw [hcons, List.cons_append, pieces, piecesFrom, hat]
  simp only [piecesFrom_eq, hdrop]

theorem pieces_literal (h : ∀ k < 12, ¬ token k <+: c :: cs) :
    pieces (c :: cs) = .literal c :: pieces cs := by
  have hat : tokenAt? (c :: cs) = none := by
    rw [Option.eq_none_iff_forall_ne_some]
    exact fun k hk => h k (tokenAt?_eq_some_iff.mp hk).1 (tokenAt?_eq_some_iff.mp hk).2
  rw [pieces, piecesFrom, hat]
  rfl

/-- A template is read from its front, tokens first. -/
@[elab_as_elim]
theorem template_induction {motive : List Char → Prop} (nil : motive [])
    (slot : ∀ k < 12, ∀ cs, motive cs → motive (token k ++ cs))
    (literal : ∀ c cs, (∀ k < 12, ¬ token k <+: c :: cs) → motive cs → motive (c :: cs)) :
    ∀ cs, motive cs :=
  word_induction (fun k : Fin 12 => token k) (fun k => (isMarked_token k k.isLt).ne_nil) nil
    (fun k => slot k k.isLt) fun c cs plain => literal c cs fun k hk => plain ⟨k, hk⟩

def filled (text : Nat → List Char) (ps : List Piece) : List Char :=
  ps.flatMap fun
    | .literal c => [c]
    | .slot k => text k

@[simp] theorem filled_literal : filled text (.literal c :: ps) = c :: filled text ps := rfl

@[simp] theorem filled_slot : filled text (.slot k :: ps) = text k ++ filled text ps := rfl

@[simp] theorem filled_append : filled text (ps ++ qs) = filled text ps ++ filled text qs :=
  List.flatMap_append

theorem filled_congr {text' : Nat → List Char} (h : ∀ k, .slot k ∈ ps → text k = text' k) :
    filled text ps = filled text' ps := by
  refine List.flatMap_congr fun p hp => ?_
  cases p with
  | literal c => rfl
  | slot k => exact h k hp

theorem filled_token_pieces (cs : List Char) : filled token (pieces cs) = cs := by
  induction cs using template_induction with
  | nil => rfl
  | slot k hk cs ih => rw [pieces_token hk, filled_slot, ih]
  | literal c cs h ih => rw [pieces_literal h, filled_literal, ih]

theorem lt_of_slot_mem_pieces (h : .slot k ∈ pieces cs) : k < 12 := by
  induction cs using template_induction with
  | nil => cases h
  | slot j hj cs ih =>
    rw [pieces_token hj, List.mem_cons] at h
    rcases h with h | h
    · obtain rfl : k = j := by simpa using h
      exact hj
    · exact ih h
  | literal c cs hplain ih =>
    rw [pieces_literal hplain, List.mem_cons] at h
    exact h.elim nofun ih

/-! ### One round -/

/-- What a slot shows when a number of rounds are over: its text, or still its token. -/
def shown (text : Nat → List Char) (k j : Nat) : List Char := if j < k then text j else token j

@[elab_as_elim]
theorem run_induction {motive : List Piece → Prop} (k : Nat)
    (run : ∀ r, (∀ j, .slot j ∈ r → j < k) → motive r)
    (cut : ∀ r j ps, (∀ j, .slot j ∈ r → j < k) → k ≤ j → motive ps → motive (r ++ .slot j :: ps))
    (ps : List Piece) : motive ps := by
  have hrun (ps : List Piece) : ∀ r, (∀ j, .slot j ∈ r → j < k) → motive (r ++ ps) := by
    induction ps with
    | nil => exact fun r hr => by simpa using run r hr
    | cons p ps ih =>
      intro r hr
      by_cases hp : ∃ j, k ≤ j ∧ p = .slot j
      · obtain ⟨j, hj, rfl⟩ := hp
        exact cut r j ps hr hj (ih [] nofun)
      · have hr' : ∀ j, .slot j ∈ r ++ [p] → j < k := by
          intro j hj
          rcases List.mem_append.mp hj with hj | hj
          · exact hr j hj
          · exact Nat.lt_of_not_le fun hle => hp ⟨j, hle, (List.mem_singleton.mp hj).symm⟩
        simpa using ih (r ++ [p]) hr'
  exact hrun ps [] nofun

theorem outside_of_notMem {p : Piece} {before r after : List Piece} (hp : p ∉ r)
    (h : before ++ r ++ after = ps ++ p :: qs) :
    (∃ between, before = ps ++ p :: between) ∨ ∃ between, ps = before ++ r ++ between := by
  rcases List.append_eq_append_iff.mp h with ⟨between, hps, -⟩ | ⟨rest, hr, hrest⟩
  · exact .inr ⟨between, hps⟩
  rcases rest with _ | ⟨q, rest⟩
  · exact .inr ⟨[], by simp [hr]⟩
  obtain ⟨rfl, -⟩ := List.cons.inj hrest
  rcases List.append_eq_append_iff.mp hr with ⟨front, -, hr⟩ | ⟨between, hbefore, hr⟩
  · exact absurd (by simp [hr]) hp
  · cases between with
    | nil =>
      rw [List.nil_append] at hr
      exact absurd (hr ▸ List.mem_cons_self) hp
    | cons q between =>
      obtain ⟨rfl, -⟩ := List.cons.inj hr
      exact .inl ⟨between, hbefore⟩

theorem infix_of_cut (r : List Piece) (j : Nat) (ps : List Piece) : ps <:+: r ++ .slot j :: ps :=
  ⟨r ++ [.slot j], [], by simp⟩

theorem filled_shown_of_lt (h : ∀ j, .slot j ∈ ps → j < k) :
    filled (shown text k) ps = filled text ps :=
  filled_congr fun j hj => if_pos (h j hj)

theorem filled_shown_cut {r : List Piece} (hr : ∀ j, .slot j ∈ r → j < k) (hj : k ≤ j) :
    filled (shown text k) (r ++ .slot j :: ps) =
      filled text r ++ (token j ++ filled (shown text k) ps) := by
  rw [filled_append, filled_slot, filled_shown_of_lt hr, shown, if_neg (Nat.not_lt_of_le hj)]

/-- A stretch of the pieces with slots below a limit only has the token of a round in its text. -/
def FormsIn (text : Nat → List Char) (limit k : Nat) (ps : List Piece) : Prop :=
  ∃ r, r <:+: ps ∧ (∀ j, .slot j ∈ r → j < limit) ∧ token k <:+: filled text r

theorem FormsIn.mono {limit : Nat} (h : FormsIn text limit k ps) (hps : ps <:+: qs) :
    FormsIn text limit k qs := by
  obtain ⟨r, hr, hslots, hoccurs⟩ := h
  exact ⟨r, hr.trans hps, hslots, hoccurs⟩

section Round

variable (hk : k < 12) (hps : ∀ j, .slot j ∈ ps → j < 12)

include hk

theorem cutsNone_token (hj : j < 12) (a b : List Char) :
    CutsNone (token k) a (token j ++ b) ∧ CutsNone (token k) (token j) b := by
  have hmarked := isMarked_token k hk
  have hother := isMarked_token j hj
  refine ⟨hmarked.cutsNone hother, hmarked.cutsNone_behind hother ?_⟩
  rintro (h | h)
  · rw [token_prefixFree k hk j hj h]
  · rw [token_prefixFree j hj k hk h]

theorem eq_of_token_occurs (hj : j < 12) (h : token k <:+: token j) : k = j :=
  token_prefixFree k hk j hj ((isMarked_token k hk).begins_of_occurs (isMarked_token j hj) h)

include hps

/-- A round that forms no token fills its own slots. -/
theorem replaceAll_filled (h : ¬ FormsIn text k k ps) :
    replaceAll (token k) (text k) (filled (shown text k) ps) = filled (shown text (k + 1)) ps := by
  induction ps using run_induction k with
  | run r hr =>
    rw [filled_shown_of_lt hr, filled_shown_of_lt fun j hj => Nat.lt_succ_of_lt (hr j hj)]
    exact replaceAll_of_absent fun hoccurs => h ⟨r, List.infix_refl r, hr, hoccurs⟩
  | cut r j ps hr hj ih =>
    have hlt : j < 12 := hps j (by simp)
    have hleft : ¬ token k <:+: filled text r := fun hoccurs =>
      h ⟨r, (List.prefix_append ..).isInfix, hr, hoccurs⟩
    have hright : ¬ FormsIn text k k ps := mt (·.mono (infix_of_cut r j ps)) h
    have hslot : replaceAll (token k) (text k) (token j) = shown text (k + 1) j := by
      rcases Nat.eq_or_lt_of_le hj with rfl | hlater
      · rw [replaceAll_self (isMarked_token k hk).ne_nil, shown, if_pos (Nat.lt_succ_self k)]
      · rw [shown, if_neg (Nat.not_lt_of_le hlater)]
        exact replaceAll_of_absent fun hoccurs =>
          Nat.ne_of_lt hlater (eq_of_token_occurs hk hlt hoccurs)
    obtain ⟨hfront, hback⟩ := cutsNone_token hk hlt (filled text r) (filled (shown text k) ps)
    calc replaceAll (token k) (text k) (filled (shown text k) (r ++ .slot j :: ps))
      _ = replaceAll (token k) (text k) (filled text r) ++
          (replaceAll (token k) (text k) (token j) ++
            replaceAll (token k) (text k) (filled (shown text k) ps)) := by
        rw [filled_shown_cut hr hj, replaceAll_append hfront, replaceAll_append hback]
      _ = filled text r ++ (shown text (k + 1) j ++ filled (shown text (k + 1)) ps) := by
        rw [replaceAll_of_absent hleft, hslot, ih (fun i hi => hps i (by simp [hi])) hright]
      _ = filled (shown text (k + 1)) (r ++ .slot j :: ps) := by
        rw [filled_append, filled_slot,
          filled_shown_of_lt fun i hi => Nat.lt_succ_of_lt (hr i hi)]

/-- In such a round every occurrence of the token is one of its slots. -/
theorem exists_slot_of_occurrence (h : ¬ FormsIn text k k ps) {a b : List Char}
    (heq : filled (shown text k) ps = a ++ token k ++ b) :
    ∃ qs rs, ps = qs ++ .slot k :: rs ∧ a = filled (shown text k) qs := by
  induction ps using run_induction k generalizing a with
  | run r hr =>
    refine absurd ⟨r, List.infix_refl r, hr, ?_⟩ h
    rw [← filled_shown_of_lt hr, heq]
    exact ⟨a, b, rfl⟩
  | cut r j ps hr hj ih =>
    have hlt : j < 12 := hps j (by simp)
    obtain ⟨hfront, hback⟩ := cutsNone_token hk hlt (filled text r) (filled (shown text k) ps)
    rw [filled_shown_cut hr hj] at heq
    rcases hfront.occurrence heq with ⟨z, hz⟩ | ⟨x, rfl, hx⟩
    · exact absurd ⟨r, (List.prefix_append ..).isInfix, hr, a, z, hz.symm⟩ h
    rcases hback.occurrence hx with ⟨z, hz⟩ | ⟨y, rfl, hy⟩
    · obtain rfl := eq_of_token_occurs hk hlt ⟨x, z, hz.symm⟩
      have hnil : x = [] := by
        have hlength := congrArg List.length hz
        simp only [List.length_append] at hlength
        exact List.eq_nil_of_length_eq_zero (by omega)
      exact ⟨r, ps, rfl, by rw [hnil, List.append_nil, filled_shown_of_lt hr]⟩
    · have hright : ¬ FormsIn text k k ps := mt (·.mono (infix_of_cut r j ps)) h
      obtain ⟨qs, rs, rfl, rfl⟩ := ih (fun i hi => hps i (by simp [hi])) hright hy
      exact ⟨r ++ .slot j :: qs, rs, by simp, (filled_shown_cut hr hj).symm⟩

omit hps in
theorem not_formsIn_of_occurrences
    (h : ∀ a b, filled (shown text k) ps = a ++ token k ++ b →
      ∃ qs rs, ps = qs ++ .slot k :: rs ∧ a = filled (shown text k) qs) : ¬ FormsIn text k k ps := by
  rintro ⟨r, ⟨before, after, hps⟩, hslots, x, y, hxy⟩
  have hr : filled (shown text k) r = x ++ token k ++ y := by rw [filled_shown_of_lt hslots, hxy]
  have heq : filled (shown text k) ps =
      (filled (shown text k) before ++ x) ++ token k ++ (y ++ filled (shown text k) after) := by
    simp [← hps, hr]
  obtain ⟨qs, rs, hsplit, ha⟩ := h _ _ heq
  have hself : shown text k k = token k := if_neg (Nat.lt_irrefl k)
  have hpos : 0 < (token k).length := List.length_pos_iff.mpr (isMarked_token k hk).ne_nil
  have hla := congrArg List.length ha
  have hlr := congrArg List.length hr
  rcases outside_of_notMem (fun hmem => Nat.lt_irrefl k (hslots k hmem)) (hps.trans hsplit) with
    ⟨between, rfl⟩ | ⟨between, rfl⟩
  · simp only [filled_append, filled_slot, hself, List.length_append] at hla
    omega
  · simp only [filled_append, List.length_append] at hla hlr
    omega

end Round

/-! ### All rounds -/

def roundText (template : String) (t : Instant) (value : Float) (identifiers : List String)
    (k : Nat) : List Char :=
  ((replacements t value identifiers).take k).foldl (fun text r => replaceAll r.token r.text text)
    template.toList

/-- Tokens are replaced where the template has them and nowhere else. -/
structure Verbatim (template : String) (t : Instant) (value : Float) (identifiers : List String) :
    Prop where
  /-- Each slot is filled with its own text, and all other text is unchanged. -/
  text : substitute template t value identifiers =
    String.ofList (filled (tokenText t value identifiers) (pieces template.toList))
  /-- In each round the token occurs only where the template has it. -/
  own : ∀ k < 12, ∀ a b, roundText template t value identifiers k = a ++ token k ++ b →
    ∃ ps qs, pieces template.toList = ps ++ .slot k :: qs ∧
      a = filled (shown (tokenText t value identifiers) k) ps

/-- Some stretch of the template, all of whose slots are those of identifiers and of rounds before
another token's, has that token in its text: in an identifier or across its ends. -/
def FormsToken (template : String) (identifiers : List String) : Prop :=
  ∃ k < 12, FormsIn (identifierText identifiers) (min k 10) k (pieces template.toList)

section Rounds

variable {template : String} {t : Instant} {value : Float}

theorem roundText_succ (hk : k < 12) : roundText template t value identifiers (k + 1) =
    replaceAll (token k) (tokenText t value identifiers k)
      (roundText template t value identifiers k) := by
  have hlength : k < (replacements t value identifiers).length := by simpa [replacements_eq] using hk
  rw [roundText, List.take_succ_eq_append_getElem hlength, List.foldl_append]
  simp [roundText, replacements_eq]

theorem substitute_eq : substitute template t value identifiers =
    String.ofList (roundText template t value identifiers 12) := by
  rw [substitute, roundText, List.take_of_length_le]
  simp [replacements_eq]

theorem filled_tokenText_of_lt (h : ∀ j, .slot j ∈ ps → j < 10) :
    filled (tokenText t value identifiers) ps = filled (identifierText identifiers) ps :=
  filled_congr fun j hj => if_pos (h j hj)

/-- The instant has no part in a token that is spelled after it is put in. -/
theorem formsIn_tokenText_iff (hk : k < 12) :
    FormsIn (tokenText t value identifiers) k k ps ↔
      FormsIn (identifierText identifiers) (min k 10) k ps := by
  constructor
  · rintro ⟨r, hr, hslots, hoccurs⟩
    refine FormsIn.mono ?_ hr
    clear hr
    induction r using run_induction 10 with
    | run r hten =>
      rw [filled_tokenText_of_lt hten] at hoccurs
      exact ⟨r, List.infix_refl r, fun j hj => Nat.lt_min.mpr ⟨hslots j hj, hten j hj⟩, hoccurs⟩
    | cut r j ps hten hj ih =>
      have hlt : j < k := hslots j (by simp)
      obtain rfl : j = 10 := by omega
      obtain rfl : k = 11 := by omega
      have hletters : (token 11).all fun c => !Instant.isStampChar c := by decide
      have hdisjoint : ∀ c ∈ t.stamp.toList, c ∉ token 11 := by
        intro c hc hmem
        have hnot := List.all_eq_true.mp hletters c hmem
        rw [t.isStampChar_of_mem_stamp c hc] at hnot
        cases hnot
      rw [filled_append, filled_slot, filled_tokenText_of_lt hten] at hoccurs
      rcases infix_of_disjoint t.stamp_ne_nil hdisjoint (by decide) hoccurs with hleft | hright
      · exact ⟨r, (List.prefix_append ..).isInfix, hten, hleft⟩
      · exact (ih (fun i hi => hslots i (by simp [hi])) hright).mono (infix_of_cut r 10 ps)
  · rintro ⟨r, hr, hslots, hoccurs⟩
    refine ⟨r, hr, fun j hj => (Nat.lt_min.mp (hslots j hj)).1, ?_⟩
    rwa [filled_tokenText_of_lt fun j hj => (Nat.lt_min.mp (hslots j hj)).2]

/-- Rounds that form no token leave the template with their slots filled. -/
theorem roundText_eq (hk : k ≤ 12) (h : ∀ i < k,
    ¬ FormsIn (tokenText t value identifiers) i i (pieces template.toList)) :
    roundText template t value identifiers k =
      filled (shown (tokenText t value identifiers) k) (pieces template.toList) := by
  induction k with
  | zero => exact (filled_token_pieces template.toList).symm
  | succ k ih =>
    rw [roundText_succ hk, ih (Nat.le_of_succ_le hk) fun i hi => h i (Nat.lt_succ_of_lt hi)]
    exact replaceAll_filled hk (fun _ => lt_of_slot_mem_pieces) (h k (Nat.lt_succ_self k))

theorem verbatim_of_not_formsToken (h : ¬ FormsToken template identifiers) :
    Verbatim template t value identifiers := by
  have hslots : ∀ j, .slot j ∈ pieces template.toList → j < 12 := fun _ => lt_of_slot_mem_pieces
  have hnone : ∀ k < 12,
      ¬ FormsIn (tokenText t value identifiers) k k (pieces template.toList) :=
    fun k hk hforms => h ⟨k, hk, (formsIn_tokenText_iff hk).mp hforms⟩
  constructor
  · rw [substitute_eq, roundText_eq (Nat.le_refl 12) hnone, filled_shown_of_lt hslots]
  · intro k hk a b heq
    rw [roundText_eq (Nat.le_of_lt hk) fun i hi => hnone i (Nat.lt_trans hi hk)] at heq
    exact exists_slot_of_occurrence hk hslots (hnone k hk) heq

/-- The tokens of a template are replaced verbatim and once exactly if the identifiers in it spell
none, by themselves or with the text around them. The instant and the value never matter. -/
theorem substitute_verbatim_iff (template : String) (t : Instant) (value : Float)
    (identifiers : List String) :
    Verbatim template t value identifiers ↔ ¬ FormsToken template identifiers := by
  refine ⟨fun h => ?_, verbatim_of_not_formsToken⟩
  -- by induction on the round: up to it the text is as it should be, so it forms no token either
  have hnone : ∀ k < 12,
      ¬ FormsIn (tokenText t value identifiers) k k (pieces template.toList) := by
    intro k
    induction k using Nat.strongRecOn with
    | ind k ih =>
      intro hk
      refine not_formsIn_of_occurrences hk fun a b heq => h.own k hk a b ?_
      rw [roundText_eq (Nat.le_of_lt hk) fun i hi => ih i hi (Nat.lt_trans hi hk), heq]
  rintro ⟨k, hk, hforms⟩
  exact hnone k hk ((formsIn_tokenText_iff hk).mpr hforms)

/-- An identifier that is itself a later token is replaced in its turn. -/
theorem not_verbatim_identifier_token :
    ¬ Verbatim "$TSID[0] is high" ⟨0⟩ 75 ["$TSID[1]", "river"] := by
  intro h
  have hcode : substitute "$TSID[0] is high" ⟨0⟩ 75 ["$TSID[1]", "river"] = "river is high" := by
    decide
  have hown : String.ofList (filled (tokenText ⟨0⟩ 75 ["$TSID[1]", "river"])
      (pieces "$TSID[0] is high".toList)) = "$TSID[1] is high" := by
    decide
  exact absurd (hcode.symm.trans (h.text.trans hown)) (by decide)

/-- An identifier that is not there leaves nothing between the parts of a token. -/
example : roundText "$VAL$TSID[5]UE" ⟨0⟩ 75 [] 11 = "$VALUE".toList := by decide

end Rounds

end Message
end SeriesAlarm
