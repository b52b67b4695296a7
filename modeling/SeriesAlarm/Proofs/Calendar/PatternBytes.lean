import SeriesAlarm.Proofs.Calendar.PatternText
import SeriesAlarm.Proofs.Text.Bytes
import SeriesAlarm.Proofs.Text.Trim

/-!
# Partial dates read by byte positions

A format and a value may also be read as texts in UTF-8, cut at byte positions. A cut within a
character or behind the end is a fault. The cuts that are made stand at the ends of characters, so
that no format and no value lead to a fault, and what is read is what `TimePattern.parse` reads.
-/

namespace SeriesAlarm
namespace Text

variable {a b cs : List Char} {n : Nat}

theorem byteLength_of_plusDigits? {m : Nat} (h : plusDigits? cs = some m) :
    byteLength cs = cs.length := by
  have hdigits {cs : List Char} (h : digits? cs = some m) : ∀ c ∈ cs, c.toNat < 128 := by
    intro c hc
    unfold digits? at h
    split at h
    · next hall =>
      have hbounds := isDigit_bounds (List.all_eq_true.mp hall.2 c hc)
      omega
    · cases h
  refine byteLength_eq_length ?_
  unfold plusDigits? at h
  split at h
  · exact List.forall_mem_cons.mpr ⟨by decide, hdigits h⟩
  · exact hdigits h

/-- A number that ends at a byte position is one that ends behind as many characters. -/
theorem cut?_number_iff {m : Nat} :
    (∃ digits, cut? n cs = some (digits, b) ∧ plusDigits? digits = some m) ↔
      n ≤ cs.length ∧ plusDigits? (cs.take n) = some m ∧ b = cs.drop n := by
  constructor
  · rintro ⟨digits, hcut, hm⟩
    obtain ⟨rfl, rfl⟩ := cut?_eq_some_iff.mp hcut
    rw [byteLength_of_plusDigits? hm]
    simp [hm]
  · rintro ⟨hle, hm, rfl⟩
    refine ⟨cs.take n, cut?_eq_some_iff.mpr ⟨(List.take_append_drop n cs).symm, ?_⟩, hm⟩
    rw [byteLength_of_plusDigits? hm, List.length_take_of_le hle]

end Text

open Text

namespace TimePattern

variable {u : TimeUnit} {c : Char} {f v : List Char} {p q : TimePattern}

@[simp] theorem byteLength_token (u : TimeUnit) : byteLength (token u) = (token u).length := by
  cases u <;> rfl

theorem length_of_cut? {a g : List Char} (h : cut? (byteLength (token u)) f = some (a, g)) :
    g.length < f.length := by
  obtain ⟨rfl, hbytes⟩ := cut?_eq_some_iff.mp h
  have hne : a ≠ [] := by
    rintro rfl
    rw [byteLength_token] at hbytes
    exact token_ne_nil u (List.length_eq_zero_iff.mp hbytes.symm)
  rw [List.length_append]
  exact Nat.lt_add_of_pos_left (List.length_pos_iff.mpr hne)

def tokens : List TimeUnit := [.year, .month, .day, .hour, .minute, .second]

/-- Reads a value under a format, both cut at byte positions; nothing if a cut is a fault. -/
def readBytes? (f : List Char) (p : TimePattern) (v : List Char) :
    Option (Except ReadError TimePattern) :=
  match f with
  | [] => some (if v = [] then .ok p else .error .mismatch)
  | c :: f =>
    match tokens.find? fun u => (token u).isPrefixOf (c :: f) with
    | some u =>
      let width := byteLength (token u)
      if byteLength v < width ∨ ¬ isBoundary width v then some (.error .mismatch)
      else
        match cut? width v with
        | none => none
        | some (digits, v) =>
          match plusDigits? digits with
          | none => some (.error .mismatch)
          | some n =>
            if lowest u ≤ n ∧ n ≤ highest u then
              match _hcut : cut? width (c :: f) with
              | none => none
              | some (_, f) => readBytes? f (p.set u n) v
            else some (.error (.outOfRange u))
    | none =>
      match v with
      | d :: v => if c = d then readBytes? f p v else some (.error .mismatch)
      | [] => some (.error .mismatch)
termination_by f.length
decreasing_by
  · exact length_of_cut? _hcut
  · simp

theorem find?_tokens (u : TimeUnit) (f : List Char) :
    (tokens.find? fun v => (token v).isPrefixOf (token u ++ f)) = some u := by
  cases u <;> rfl

theorem readBytes?_token (u : TimeUnit) (f : List Char) (p : TimePattern) (v : List Char) :
    readBytes? (token u ++ f) p v =
      if byteLength v < (token u).length ∨ ¬ isBoundary (token u).length v then
        some (.error .mismatch)
      else
        match cut? (token u).length v with
        | none => none
        | some (digits, v) =>
          match plusDigits? digits with
          | none => some (.error .mismatch)
          | some n =>
            if lowest u ≤ n ∧ n ≤ highest u then readBytes? f (p.set u n) v
            else some (.error (.outOfRange u)) := by
  have hfind := find?_tokens u f
  have hcut : cut? (byteLength (token u)) (token u ++ f) = some (token u, f) :=
    cut?_eq_some_iff.mpr ⟨rfl, rfl⟩
  obtain ⟨c, g, hg⟩ : ∃ c g, token u ++ f = c :: g :=
    List.exists_cons_of_ne_nil (List.append_ne_nil_of_left_ne_nil (token_ne_nil u) f)
  rw [hg] at hfind hcut ⊢
  rw [readBytes?.eq_def]
  simp only [hfind, byteLength_token]
  refine if_congr Iff.rfl rfl ?_
  cases cut? (token u).length v with
  | none => rfl
  | some sides =>
    dsimp only
    cases plusDigits? sides.1 with
    | none => rfl
    | some n =>
      refine if_congr Iff.rfl ?_ rfl
      split
      · next hnone => cases hnone.symm.trans hcut
      · next hsome =>
        cases hsome.symm.trans hcut
        rfl

theorem readBytes?_literal (h : ∀ u, ¬ token u <+: c :: f) (p : TimePattern) (v : List Char) :
    readBytes? (c :: f) p v =
      match v with
      | d :: v => if c = d then readBytes? f p v else some (.error .mismatch)
      | [] => some (.error .mismatch) := by
  have hfind : (tokens.find? fun u => (token u).isPrefixOf (c :: f)) = none :=
    List.find?_eq_none.mpr fun u _ => by simpa using h u
  rw [readBytes?.eq_def]
  simp only [hfind]

/-- No cut is a fault, and what is read is what is read by characters. -/
theorem readBytes?_eq (f : List Char) (p : TimePattern) (v : List Char) :
    readBytes? f p v = some (readPieces (pieces f) p v) := by
  induction f using format_induction generalizing p v with
  | nil => cases v <;> simp [readBytes?.eq_def, pieces, readPieces]
  | literal c f plain ih =>
    rw [readBytes?_literal plain, pieces_literal plain]
    cases v with
    | nil => rfl
    | cons d v =>
      simp only [readPieces, ih]
      split <;> rfl
  | field u f ih =>
    rw [readBytes?_token, pieces_token]
    by_cases hnumber : ∃ n, (token u).length ≤ v.length ∧
        plusDigits? (v.take (token u).length) = some n
    · obtain ⟨n, hle, hn⟩ := hnumber
      obtain ⟨digits, hcut, hdigits⟩ := cut?_number_iff.mpr ⟨hle, hn, rfl⟩
      obtain ⟨hsplit, hwidth⟩ := cut?_eq_some_iff.mp hcut
      have hbytes : (token u).length ≤ byteLength v := by
        rw [hsplit, byteLength_append, hwidth]
        exact Nat.le_add_right ..
      have hboundary : isBoundary (token u).length v := isBoundary_iff.mpr ⟨_, _, hcut⟩
      rw [readPieces_field hle hn, if_neg (not_or.mpr ⟨Nat.not_lt.mpr hbytes, not_not.mpr hboundary⟩)]
      simp only [hcut, hdigits, ih]
      split <;> rfl
    · rw [readPieces_field_of_none fun n hle hn => hnumber ⟨n, hle, hn⟩]
      split
      · rfl
      next hguard =>
      obtain ⟨digits, rest, hcut⟩ := isBoundary_iff.mp (not_not.mp (not_or.mp hguard).2)
      have hnone : plusDigits? digits = none := by
        refine Option.eq_none_iff_forall_ne_some.mpr fun n hn => ?_
        obtain ⟨hle, hn, -⟩ := cut?_number_iff.mp ⟨digits, hcut, hn⟩
        exact hnumber ⟨n, hle, hn⟩
      simp only [hcut, hnone]

def finish (value format : String) : Except ReadError TimePattern → Except PatternError TimePattern
  | .error .mismatch => .error (.mismatch (trim value) format)
  | .error (.outOfRange u) => .error (.outOfRange (String.ofList (token u)) (trim value))
  | .ok p => if TimeUnit.all.all fun u => (p.get u).isNone then .error (.noFields format) else .ok p

def parseBytes? (value format : String) : Option (Except PatternError TimePattern) :=
  (readBytes? format.toList { format } (trimChars value.toList)).map (finish value format)

/-- Reading by byte positions meets no fault and gives what `parse` gives. That accepts the values that
spell the format out with numbers that may have a plus sign, so it accepts plain digits alone exactly
where no number has a sign. -/
theorem parse_exact_iff (value format : String) :
    parseBytes? value format = some (parse value format) ∧ IsExact plusDigits? value format ∧
      (IsExact digits? value format ↔ ¬ HasSign value format) := by
  refine ⟨?_, isExact_plusDigits? value format, isExact_digits?_iff⟩
  rw [parseBytes?, readBytes?_eq, Option.map_some]
  rfl

theorem not_isExact_plusSix :
    (∃ p, parse "+6:00" "HH:mm" = .ok p ∧ p.hour = some 6 ∧ p.minute = some 0) ∧
      ¬ IsExact digits? "+6:00" "HH:mm" := by
  have hparse : parse "+6:00" "HH:mm" =
      .ok { format := "HH:mm", hour := some 6, minute := some 0 } := by decide
  refine ⟨⟨_, hparse, rfl, rfl⟩, fun exact => ?_⟩
  obtain ⟨texts, spells⟩ := exact.accepts.mp ⟨_, hparse⟩
  obtain ⟨text, rest, others, hvalue, rfl, width, -⟩ :=
    (aligns_token_iff (u := .hour) (f := [':', 'm', 'm'])).mp spells.aligns
  obtain ⟨c, text, rfl⟩ : ∃ c rest, text = c :: rest :=
    List.exists_cons_of_length_pos (by rw [width]; decide)
  cases (List.cons.inj hvalue).1
  exact spells.plain List.mem_cons_self rfl

end TimePattern
end SeriesAlarm
