import Mathlib.Data.List.Basic
import SeriesAlarm.Calendar.Pattern
import SeriesAlarm.Proofs.Text.Occurrence

/-!
# The texts of partial dates

A format is a sequence of tokens and literal characters, and a value is aligned with it if it has a
text of the same length for each token and repeats each literal. Reading accepts the aligned values
whose texts are numbers in the range of their field; the last text of a field counts. A number may
have a plus sign in place of its first digit, so values are accepted that are no plain digits.
-/

namespace SeriesAlarm

open Text

namespace TimePattern

variable {u : TimeUnit} {c : Char} {f v : List Char} {p q : TimePattern}
  {texts texts' : List (TimeUnit × List Char)} {number : List Char → Option Nat}

theorem token_ne_nil (u : TimeUnit) : token u ≠ [] := by cases u <;> decide

theorem eq_of_prefixes {u v : TimeUnit} (hu : token u <+: f) (hv : token v <+: f) : u = v := by
  have hall : ∀ u ∈ TimeUnit.all, ∀ v ∈ TimeUnit.all, token u <+: token v → u = v := by decide
  rcases List.prefix_or_prefix_of_prefix hu hv with h | h
  · exact hall u u.mem_all v v.mem_all h
  · exact (hall v v.mem_all u u.mem_all h).symm

/-- A format is read from its front, tokens first. -/
@[elab_as_elim]
theorem format_induction {motive : List Char → Prop} (nil : motive [])
    (field : ∀ u f, motive f → motive (token u ++ f))
    (literal : ∀ c f, (∀ u, ¬ token u <+: c :: f) → motive f → motive (c :: f)) :
    ∀ f, motive f :=
  word_induction token token_ne_nil nil field literal

theorem pieces_token (u : TimeUnit) (f : List Char) :
    pieces (token u ++ f) = .field u :: pieces f := by
  cases u <;> rfl

theorem pieces_literal (h : ∀ u, ¬ token u <+: c :: f) :
    pieces (c :: f) = .literal c :: pieces f := by
  have hno (u : TimeUnit) (r : List Char) (heq : c :: f = token u ++ r) : False := h u ⟨r, heq.symm⟩
  rw [pieces]
  · exact fun r hc hf => hno .year r (by rw [hc, hf]; rfl)
  · exact fun r hc hf => hno .month r (by rw [hc, hf]; rfl)
  · exact fun r hc hf => hno .day r (by rw [hc, hf]; rfl)
  · exact fun r hc hf => hno .hour r (by rw [hc, hf]; rfl)
  · exact fun r hc hf => hno .minute r (by rw [hc, hf]; rfl)
  · exact fun r hc hf => hno .second r (by rw [hc, hf]; rfl)

/-- The value follows the format: it has a text as long as the token in place of each token, and
every other character of the format itself. -/
inductive Aligns : List Char → List Char → List (TimeUnit × List Char) → Prop
  | nil : Aligns [] [] []
  | field (u : TimeUnit) {f v text : List Char} {texts : List (TimeUnit × List Char)}
      (width : text.length = (token u).length) (rest : Aligns f v texts) :
      Aligns (token u ++ f) (text ++ v) ((u, text) :: texts)
  | literal {c : Char} {f v : List Char} {texts : List (TimeUnit × List Char)}
      (plain : ∀ u, ¬ token u <+: c :: f) (rest : Aligns f v texts) :
      Aligns (c :: f) (c :: v) texts

theorem aligns_nil_iff : Aligns [] v texts ↔ v = [] ∧ texts = [] := by
  constructor
  · intro h
    generalize hf : [] = f at h
    cases h with
    | nil => exact ⟨rfl, rfl⟩
    | field u => exact absurd (List.append_eq_nil_iff.mp hf.symm).1 (token_ne_nil u)
    | literal => cases hf
  · rintro ⟨rfl, rfl⟩
    exact .nil

theorem aligns_token_iff : Aligns (token u ++ f) v texts ↔
    ∃ text rest others, v = text ++ rest ∧ texts = (u, text) :: others ∧
      text.length = (token u).length ∧ Aligns f rest others := by
  constructor
  · intro h
    generalize hg : token u ++ f = g at h
    cases h with
    | nil => exact absurd (List.append_eq_nil_iff.mp hg).1 (token_ne_nil u)
    | @field u' f' v text texts width rest =>
      have hu : u = u' := eq_of_prefixes (hg ▸ List.prefix_append ..) (List.prefix_append ..)
      subst hu
      obtain rfl := List.append_cancel_left hg
      exact ⟨text, v, texts, rfl, rfl, width, rest⟩
    | literal plain => exact absurd ⟨f, hg⟩ (plain u)
  · rintro ⟨text, rest, others, rfl, rfl, width, h⟩
    exact .field u width h

theorem aligns_literal_iff (h : ∀ u, ¬ token u <+: c :: f) :
    Aligns (c :: f) v texts ↔ ∃ rest, v = c :: rest ∧ Aligns f rest texts := by
  constructor
  · intro haligns
    generalize hg : c :: f = g at haligns
    cases haligns with
    | nil => cases hg
    | field u => exact absurd (hg ▸ List.prefix_append ..) (h u)
    | literal plain rest =>
      cases hg
      exact ⟨_, rfl, rest⟩
  · rintro ⟨rest, rfl, haligns⟩
    exact .literal h haligns

theorem Aligns.unique (h : Aligns f v texts) (h' : Aligns f v texts') : texts = texts' := by
  induction h generalizing texts' with
  | nil => exact (aligns_nil_iff.mp h').2.symm
  | field u width rest ih =>
    obtain ⟨text, v', others, hv, rfl, width', h'⟩ := aligns_token_iff.mp h'
    obtain ⟨rfl, rfl⟩ := List.append_inj hv (width.trans width'.symm)
    rw [ih h']
  | literal plain rest ih =>
    obtain ⟨v', hv, h'⟩ := (aligns_literal_iff plain).mp h'
    cases hv
    exact ih h'

def Fits (number : List Char → Option Nat) (t : TimeUnit × List Char) : Prop :=
  ∃ n, number t.2 = some n ∧ lowest t.1 ≤ n ∧ n ≤ highest t.1

def fill (number : List Char → Option Nat) (p : TimePattern) (texts : List (TimeUnit × List Char)) :
    TimePattern :=
  texts.foldl (fun p t => p.set t.1 ((number t.2).getD 0)) p

theorem readPieces_field {ps : List Piece} {n : Nat} (hle : (token u).length ≤ v.length)
    (hn : plusDigits? (v.take (token u).length) = some n) :
    readPieces (.field u :: ps) p v =
      if lowest u ≤ n ∧ n ≤ highest u then readPieces ps (p.set u n) (v.drop (token u).length)
      else .error (.outOfRange u) := by
  rw [readPieces, if_neg (Nat.not_lt.mpr hle)]
  simp only [hn]

theorem readPieces_field_of_none {ps : List Piece}
    (h : ∀ n, (token u).length ≤ v.length → plusDigits? (v.take (token u).length) ≠ some n) :
    readPieces (.field u :: ps) p v = .error .mismatch := by
  rw [readPieces]
  split
  · rfl
  next hlt =>
  split
  · rfl
  next n hn => exact absurd hn (h n (Nat.not_lt.mp hlt))

theorem readPieces_field_eq_ok_iff {ps : List Piece} : readPieces (.field u :: ps) p v = .ok q ↔
    ∃ n, (token u).length ≤ v.length ∧ plusDigits? (v.take (token u).length) = some n ∧
      (lowest u ≤ n ∧ n ≤ highest u) ∧
      readPieces ps (p.set u n) (v.drop (token u).length) = .ok q := by
  constructor
  · intro h
    by_cases hnumber : ∃ n, (token u).length ≤ v.length ∧
        plusDigits? (v.take (token u).length) = some n
    · obtain ⟨n, hle, hn⟩ := hnumber
      rw [readPieces_field hle hn] at h
      split at h
      · next hrange => exact ⟨n, hle, hn, hrange, h⟩
      · cases h
    · rw [readPieces_field_of_none fun n hle hn => hnumber ⟨n, hle, hn⟩] at h
      cases h
  · rintro ⟨n, hle, hn, hrange, h⟩
    rwa [readPieces_field hle hn, if_pos hrange]

theorem readPieces_literal_eq_ok_iff {ps : List Piece} :
    readPieces (.literal c :: ps) p v = .ok q ↔
      ∃ rest, v = c :: rest ∧ readPieces ps p rest = .ok q := by
  cases v with
  | nil => simp [readPieces]
  | cons d v =>
    rw [readPieces]
    split
    · next hc => simp [hc]
    · next hc => simp [Ne.symm hc]

/-- Reading accepts the aligned values whose texts fit. -/
theorem readPieces_eq_ok_iff : readPieces (pieces f) p v = .ok q ↔
    ∃ texts, Aligns f v texts ∧ (∀ t ∈ texts, Fits plusDigits? t) ∧ q = fill plusDigits? p texts := by
  induction f using format_induction generalizing p v with
  | nil =>
    simp only [aligns_nil_iff]
    cases v with
    | nil => simp [pieces, readPieces, fill, eq_comm]
    | cons d v => simp [pieces, readPieces]
  | literal c f plain ih =>
    simp only [pieces_literal plain, aligns_literal_iff plain, readPieces_literal_eq_ok_iff, ih]
    constructor
    · rintro ⟨rest, hv, texts, haligns, hfits, hq⟩
      exact ⟨texts, ⟨rest, hv, haligns⟩, hfits, hq⟩
    · rintro ⟨texts, ⟨rest, hv, haligns⟩, hfits, hq⟩
      exact ⟨rest, hv, texts, haligns, hfits, hq⟩
  | field u f ih =>
    simp only [pieces_token, aligns_token_iff, readPieces_field_eq_ok_iff, ih]
    constructor
    · rintro ⟨n, hle, hn, hrange, texts, haligns, hfits, rfl⟩
      refine ⟨(u, v.take (token u).length) :: texts,
        ⟨_, _, texts, (List.take_append_drop ..).symm, rfl, List.length_take_of_le hle, haligns⟩,
        List.forall_mem_cons.mpr ⟨⟨n, hn, hrange⟩, hfits⟩, ?_⟩
      simp [fill, hn]
    · rintro ⟨_, ⟨text, rest, others, rfl, rfl, width, haligns⟩, hfits, rfl⟩
      obtain ⟨⟨n, hn, hrange⟩, hfits⟩ := List.forall_mem_cons.mp hfits
      have htake : (text ++ rest).take (token u).length = text := List.take_left' width
      have hdrop : (text ++ rest).drop (token u).length = rest := List.drop_left' width
      have hle : (token u).length ≤ (text ++ rest).length := by simp [width]
      refine ⟨n, hle, htake.symm ▸ hn, hrange, others, hdrop.symm ▸ haligns, hfits, ?_⟩
      simp [fill, show plusDigits? text = some n from hn]

@[simp] theorem format_set (p : TimePattern) (u : TimeUnit) (n : Nat) :
    (p.set u n).format = p.format := by
  cases u <;> rfl

@[simp] theorem format_fill (number : List Char → Option Nat) (p : TimePattern)
    (texts : List (TimeUnit × List Char)) : (fill number p texts).format = p.format := by
  induction texts generalizing p with
  | nil => rfl
  | cons t texts ih => exact (ih _).trans (format_set ..)

/-- The text that counts for a field is its last one. -/
def lastText? (texts : List (TimeUnit × List Char)) (u : TimeUnit) : Option (List Char) :=
  ((texts.filter (·.1 = u)).getLast?).map (·.2)

theorem lastText?_cons (t : TimeUnit × List Char) :
    lastText? (t :: texts) u = (lastText? texts u).or (if t.1 = u then some t.2 else none) := by
  by_cases h : t.1 = u <;> simp [lastText?, h, List.getLast?_cons]

theorem mem_of_lastText? {text : List Char} (h : lastText? texts u = some text) :
    (u, text) ∈ texts := by
  obtain ⟨t, ht, rfl⟩ := Option.map_eq_some_iff.mp h
  obtain ⟨hmem, hu⟩ := List.mem_filter.mp (List.mem_of_getLast? ht)
  simpa [← of_decide_eq_true hu] using hmem

theorem exists_lastText? {t : TimeUnit × List Char} (h : t ∈ texts) :
    ∃ text, lastText? texts t.1 = some text := by
  have hne : texts.filter (·.1 = t.1) ≠ [] :=
    List.ne_nil_of_mem (List.mem_filter.mpr ⟨h, decide_eq_true rfl⟩)
  exact ⟨_, by rw [lastText?, List.getLast?_eq_some_getLast hne, Option.map_some]⟩

theorem get_fill (hfits : ∀ t ∈ texts, Fits number t) (u : TimeUnit) :
    (fill number p texts).get u = ((lastText? texts u).bind number).or (p.get u) := by
  induction texts generalizing p with
  | nil => rfl
  | cons t texts ih =>
    obtain ⟨⟨n, hn, -⟩, hfits⟩ := List.forall_mem_cons.mp hfits
    have hstep : fill number p (t :: texts) = fill number (p.set t.1 n) texts := by
      simp [fill, hn]
    rw [hstep, ih hfits, lastText?_cons]
    cases hlast : lastText? texts u with
    | none =>
      by_cases hu : t.1 = u
      · subst hu
        simp [hn]
      · simp [hu, get_set_of_ne p n (Ne.symm hu)]
    | some text =>
      obtain ⟨m, hm, -⟩ := hfits _ (mem_of_lastText? hlast)
      simp [hm]

/-- The value spells the format out: it follows the format, which has a token, with a number in the
range of its field for each token. -/
structure Spells (number : List Char → Option Nat) (value format : String)
    (texts : List (TimeUnit × List Char)) : Prop where
  aligns : Aligns format.toList (trimChars value.toList) texts
  ne_nil : texts ≠ []
  fits : ∀ t ∈ texts, Fits number t

theorem get_blank (format : String) (u : TimeUnit) :
    ({ format } : TimePattern).get u = none := by
  cases u <;> rfl

theorem get_fill_blank {format : String} (hfits : ∀ t ∈ texts, Fits number t) (u : TimeUnit) :
    (fill number { format } texts).get u = (lastText? texts u).bind number := by
  rw [get_fill hfits, get_blank, Option.or_none]

section Parse

variable {value format : String}

theorem parse_eq_ok_iff : parse value format = .ok p ↔
    ∃ texts, Spells plusDigits? value format texts ∧ p = fill plusDigits? { format } texts := by
  constructor
  · intro h
    unfold parse at h
    split at h
    · cases h
    · cases h
    next q hq =>
    split at h
    · cases h
    next hfields =>
    cases h
    obtain ⟨texts, haligns, hfits, rfl⟩ := readPieces_eq_ok_iff.mp hq
    refine ⟨texts, ⟨haligns, ?_, hfits⟩, rfl⟩
    rintro rfl
    exact hfields (List.all_eq_true.mpr fun u _ => by simp [fill, get_blank])
  · rintro ⟨texts, spells, rfl⟩
    have hread := (readPieces_eq_ok_iff (p := { format })).mpr
      ⟨texts, spells.aligns, spells.fits, rfl⟩
    unfold parse
    rw [hread]
    refine if_neg fun hnone => ?_
    obtain ⟨t, ht⟩ := List.exists_mem_of_ne_nil texts spells.ne_nil
    obtain ⟨text, hlast⟩ := exists_lastText? ht
    obtain ⟨n, hn, -⟩ := spells.fits _ (mem_of_lastText? hlast)
    have hfield := List.all_eq_true.mp hnone t.1 t.1.mem_all
    rw [get_fill_blank spells.fits, hlast, Option.bind_some, hn] at hfield
    cases hfield

/-- Reading succeeds for the values that spell the format out and for no others, and gives for each
field the number of its last text. -/
structure IsExact (number : List Char → Option Nat) (value format : String) : Prop where
  accepts : (∃ p, parse value format = .ok p) ↔ ∃ texts, Spells number value format texts
  fields : ∀ p texts, parse value format = .ok p → Spells number value format texts →
    p.format = format ∧ ∀ u, p.get u = (lastText? texts u).bind number

theorem isExact_plusDigits? (value format : String) : IsExact plusDigits? value format where
  accepts := by
    constructor
    · rintro ⟨p, hp⟩
      obtain ⟨texts, spells, -⟩ := parse_eq_ok_iff.mp hp
      exact ⟨texts, spells⟩
    · rintro ⟨texts, spells⟩
      exact ⟨_, parse_eq_ok_iff.mpr ⟨texts, spells, rfl⟩⟩
  fields p texts hp spells := by
    obtain ⟨texts', spells', rfl⟩ := parse_eq_ok_iff.mp hp
    obtain rfl := spells.aligns.unique spells'.aligns
    exact ⟨format_fill .., get_fill_blank spells.fits⟩

theorem plusDigits?_eq_digits? {cs : List Char} (h : cs.head? ≠ some '+') :
    plusDigits? cs = digits? cs := by
  unfold plusDigits?
  split
  · exact absurd rfl h
  · rfl

theorem digits?_of_sign {cs : List Char} (h : cs.head? = some '+') : digits? cs = none := by
  obtain ⟨rest, rfl⟩ := List.head?_eq_some_iff.mp h
  exact if_neg fun hdigits => absurd (List.all_eq_true.mp hdigits.2 '+' List.mem_cons_self) (by decide)

theorem Spells.plain (h : Spells digits? value format texts) {t : TimeUnit × List Char}
    (ht : t ∈ texts) : t.2.head? ≠ some '+' := by
  intro hsign
  obtain ⟨n, hn, -⟩ := h.fits t ht
  rw [digits?_of_sign hsign] at hn
  cases hn

theorem spells_iff_of_plain (hplain : ∀ t ∈ texts, t.2.head? ≠ some '+') :
    Spells plusDigits? value format texts ↔ Spells digits? value format texts := by
  have hsame : ∀ t ∈ texts, Fits plusDigits? t ↔ Fits digits? t := fun t ht => by
    rw [Fits, Fits, plusDigits?_eq_digits? (hplain t ht)]
  exact ⟨fun h => ⟨h.aligns, h.ne_nil, fun t ht => (hsame t ht).mp (h.fits t ht)⟩,
    fun h => ⟨h.aligns, h.ne_nil, fun t ht => (hsame t ht).mpr (h.fits t ht)⟩⟩

def HasSign (value format : String) : Prop :=
  ∃ texts, Spells plusDigits? value format texts ∧ ∃ t ∈ texts, t.2.head? = some '+'

/-- Reading is exact for plain digits wherever no number has a sign. -/
theorem isExact_digits?_iff : IsExact digits? value format ↔ ¬ HasSign value format := by
  have hexact := isExact_plusDigits? value format
  constructor
  · rintro exact ⟨texts, spells, t, ht, hsign⟩
    obtain ⟨texts', spells'⟩ := exact.accepts.mp (hexact.accepts.mpr ⟨texts, spells⟩)
    obtain rfl := spells.aligns.unique spells'.aligns
    exact spells'.plain ht hsign
  · intro h
    refine ⟨hexact.accepts.trans ⟨?_, ?_⟩, fun p texts hp spells => ?_⟩
    · rintro ⟨texts, spells⟩
      exact ⟨texts, (spells_iff_of_plain fun t ht hsign => h ⟨texts, spells, t, ht, hsign⟩).mp spells⟩
    · rintro ⟨texts, spells⟩
      exact ⟨texts, (spells_iff_of_plain fun t => spells.plain).mpr spells⟩
    · obtain ⟨hformat, hfields⟩ :=
        hexact.fields p texts hp ((spells_iff_of_plain fun t => spells.plain).mpr spells)
      refine ⟨hformat, fun u => (hfields u).trans ?_⟩
      cases hlast : lastText? texts u with
      | none => rfl
      | some text => exact plusDigits?_eq_digits? (spells.plain (mem_of_lastText? hlast))

end Parse
end TimePattern
end SeriesAlarm
