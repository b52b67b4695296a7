import SeriesAlarm.Proofs.Outcome
import SeriesAlarm.Proofs.Text.Bytes
import SeriesAlarm.Proofs.Text.Replace
import SeriesAlarm.Text.Environment

/-!
# References are replaced in a single pass

A text is read once from left to right: a literal, then a reference with its name, and so on. It is
expanded if every reference is closed and set, to the literals and the values in their order; a value is
not read again. The loop that searches for both ends of a reference and cuts the text there by byte
positions meets no fault, and each of its turns passes over one reference.
-/

namespace SeriesAlarm

open Text

/-- The same cause, told of another text. -/
def ReferenceError.within (whole : String) : ReferenceError → ReferenceError
  | .unclosed _ => .unclosed whole
  | .unknown name => .unknown name

namespace Environment

variable {env : Environment} {whole : String} {cs more front name rest out : List Char}
  {c : Char}

def opener : List Char := ['$', '\x7b']

def closer : Char := '\x7d'

theorem isMarked_opener : IsMarked '$' opener := by decide

theorem opener_occurs (a b : List Char) : opener <:+: a ++ opener ++ b := ⟨a, b, rfl⟩

section Pieces

/-- A part of a text. An opener without a closer behind it takes all that is left. -/
inductive Piece
  | literal (text : List Char)
  | reference (name : List Char)
  | unclosed (text : List Char)

/-- A text consists of the pieces, read from left to right. -/
inductive Reads : List Char → List Piece → Prop
  | plain {text : List Char} : ¬ opener <:+: text → Reads text [.literal text]
  | reference {front name rest : List Char} {pieces : List Piece} : ¬ opener <:+: front →
    closer ∉ name → Reads rest pieces →
      Reads (front ++ opener ++ (name ++ closer :: rest)) (.literal front :: .reference name :: pieces)
  | unclosed {front text : List Char} : ¬ opener <:+: front → closer ∉ text →
    Reads (front ++ opener ++ text) [.literal front, .unclosed text]

theorem eq_of_append_opener {a b a' b' : List Char} (ha : ¬ opener <:+: a) (ha' : ¬ opener <:+: a')
    (heq : a ++ opener ++ b = a' ++ opener ++ b') : a = a' ∧ b = b' := by
  have hsplit := (splitOnText_eq_some_iff isMarked_opener).mpr ⟨heq, ha'⟩
  rw [(splitOnText_eq_some_iff isMarked_opener).mpr ⟨rfl, ha⟩] at hsplit
  cases hsplit
  exact ⟨rfl, rfl⟩

theorem exists_reads (cs : List Char) : ∃ pieces, Reads cs pieces := by
  induction hn : cs.length using Nat.strongRecOn generalizing cs with
  | ind n ih =>
    subst hn
    by_cases hopener : opener <:+: cs
    · obtain ⟨⟨front, behind⟩, hsplit⟩ : ∃ sides, splitOnText opener cs = some sides :=
        Option.ne_none_iff_exists'.mp fun hnone => splitOnText_eq_none_iff.mp hnone hopener
      obtain ⟨rfl, hfront⟩ := (splitOnText_eq_some_iff isMarked_opener).mp hsplit
      by_cases hcloser : closer ∈ behind
      · obtain ⟨name, rest, rfl, hname⟩ := List.eq_append_cons_of_mem hcloser
        obtain ⟨pieces, hrest⟩ := ih rest.length (by simp; omega) rest rfl
        exact ⟨_, .reference hfront hname hrest⟩
      · exact ⟨_, .unclosed hfront hcloser⟩
    · exact ⟨_, .plain hopener⟩

/-- A text is read in one way only. -/
theorem Reads.unique {ps qs : List Piece} (h : Reads cs ps) (h' : Reads cs qs) : ps = qs := by
  induction h generalizing qs with
  | plain hplain =>
    cases h' with
    | plain => rfl
    | reference => exact absurd (opener_occurs _ _) hplain
    | unclosed => exact absurd (opener_occurs _ _) hplain
  | @reference front name rest pieces hfront hname hrest ih =>
    generalize heq : front ++ opener ++ (name ++ closer :: rest) = cs at h'
    cases h' with
    | plain hplain => exact absurd (heq ▸ opener_occurs _ _) hplain
    | @reference _ _ _ _ hfront' hname' hrest' =>
      obtain ⟨rfl, hbehind⟩ := eq_of_append_opener hfront hfront' heq
      have hsplit := splitAt?_eq_some_iff.mpr ⟨hbehind, hname'⟩
      rw [splitAt?_eq_some_iff.mpr ⟨rfl, hname⟩] at hsplit
      cases hsplit
      rw [ih hrest']
    | unclosed hfront' htext =>
      obtain ⟨rfl, rfl⟩ := eq_of_append_opener hfront hfront' heq
      exact absurd (by simp) htext
  | @unclosed front text hfront htext =>
    generalize heq : front ++ opener ++ text = cs at h'
    cases h' with
    | plain hplain => exact absurd (heq ▸ opener_occurs _ _) hplain
    | reference hfront' =>
      obtain ⟨rfl, rfl⟩ := eq_of_append_opener hfront hfront' heq
      exact absurd (by simp) htext
    | unclosed hfront' =>
      obtain ⟨rfl, rfl⟩ := eq_of_append_opener hfront hfront' heq
      rfl

end Pieces

namespace Piece

def IsSet (env : Environment) : Piece → Prop
  | .literal _ => True
  | .reference name => (env.get? (String.ofList name)).isSome
  | .unclosed _ => False

def shown (env : Environment) : Piece → List Char
  | .literal text => text
  | .reference name => ((env.get? (String.ofList name)).getD "").toList
  | .unclosed _ => []

def value (env : Environment) (whole : String) : Piece → Except ReferenceError (List Char)
  | .literal text => .ok text
  | .reference name =>
    match env.get? (String.ofList name) with
    | none => .error (.unknown (String.ofList name))
    | some value => .ok value.toList
  | .unclosed _ => .error (.unclosed whole)

variable {p : Piece} {e : ReferenceError}

theorem value_of_isSet (h : p.IsSet env) : p.value env whole = .ok (p.shown env) := by
  cases p with
  | literal text => rfl
  | reference name =>
    obtain ⟨text, htext⟩ := Option.isSome_iff_exists.mp h
    simp [value, shown, htext]
  | unclosed text => exact h.elim

theorem exists_error_of_not_isSet (whole : String) (h : ¬ p.IsSet env) :
    ∃ e, p.value env whole = .error e := by
  cases p with
  | literal text => exact absurd trivial h
  | reference name =>
    have hnone : env.get? (String.ofList name) = none := Option.not_isSome_iff_eq_none.mp h
    exact ⟨.unknown (String.ofList name), by simp [value, hnone]⟩
  | unclosed text => exact ⟨.unclosed whole, rfl⟩

/-- The pieces one after the other, up to the first that nothing stands for. -/
def fill (env : Environment) (whole : String) : List Piece → Except ReferenceError (List Char)
  | [] => .ok []
  | p :: ps => (p.value env whole).bind fun text => (fill env whole ps).map (text ++ ·)

theorem fill_cons_of_ok {text : List Char} (h : p.value env whole = .ok text) (ps : List Piece) :
    fill env whole (p :: ps) = (fill env whole ps).map (text ++ ·) := by
  rw [fill, h]
  rfl

theorem fill_cons_of_error (h : p.value env whole = .error e) (ps : List Piece) :
    fill env whole (p :: ps) = .error e := by
  rw [fill, h]
  rfl

theorem fill_eq_ok_iff {ps : List Piece} {cs : List Char} : fill env whole ps = .ok cs ↔
    (∀ p ∈ ps, p.IsSet env) ∧ cs = ps.flatMap (shown env) := by
  induction ps generalizing cs with
  | nil => simp [fill, eq_comm]
  | cons p ps ih =>
    by_cases hset : p.IsSet env
    · rw [fill_cons_of_ok (value_of_isSet hset), map_eq_ok, List.forall_mem_cons, List.flatMap_cons]
      constructor
      · rintro ⟨text, hrest, rfl⟩
        obtain ⟨hall, rfl⟩ := ih.mp hrest
        exact ⟨⟨hset, hall⟩, rfl⟩
      · rintro ⟨⟨-, hall⟩, rfl⟩
        exact ⟨_, ih.mpr ⟨hall, rfl⟩, rfl⟩
    · obtain ⟨e, he⟩ := exists_error_of_not_isSet whole hset
      rw [fill_cons_of_error he]
      exact iff_of_false (fun h => by cases h) fun h => hset (List.forall_mem_cons.mp h.1).1

/-- The first piece that nothing stands for is told. -/
theorem fill_eq_error_iff {ps : List Piece} : fill env whole ps = .error e ↔
    ∃ before p after, ps = before ++ p :: after ∧ (∀ q ∈ before, q.IsSet env) ∧
      p.value env whole = .error e := by
  induction ps with
  | nil => simp [fill]
  | cons p ps ih =>
    by_cases hset : p.IsSet env
    · have hmap : (fill env whole ps).map (p.shown env ++ ·) = .error e ↔
          fill env whole ps = .error e := by
        cases fill env whole ps <;> simp [Except.map]
      rw [fill_cons_of_ok (value_of_isSet hset), hmap, ih]
      constructor
      · rintro ⟨before, q, after, rfl, hbefore, hq⟩
        exact ⟨p :: before, q, after, rfl, List.forall_mem_cons.mpr ⟨hset, hbefore⟩, hq⟩
      · rintro ⟨before, q, after, hsplit, hbefore, hq⟩
        cases before with
        | nil =>
          cases hsplit
          rw [value_of_isSet hset] at hq
          cases hq
        | cons r before =>
          cases hsplit
          exact ⟨before, q, after, rfl, (List.forall_mem_cons.mp hbefore).2, hq⟩
    · obtain ⟨e', he'⟩ := exists_error_of_not_isSet whole hset
      rw [fill_cons_of_error he']
      constructor
      · intro h
        cases h
        exact ⟨[], p, ps, rfl, List.forall_mem_nil _, he'⟩
      · rintro ⟨before, q, after, hsplit, hbefore, hq⟩
        cases before with
        | nil =>
          cases hsplit
          exact he'.symm.trans hq
        | cons r before =>
          cases hsplit
          exact absurd (List.forall_mem_cons.mp hbefore).1 hset

end Piece

section Expansion

theorem expandFrom_cons (h : ¬ opener <+: c :: cs) :
    expandFrom env whole 0 (c :: cs) = (expandFrom env whole 0 cs).map (c :: ·) := by
  have hfront : dropLeading? ['$', '\x7b'] (c :: cs) = none :=
    Option.not_isSome_iff_eq_none.mp (mt dropLeading?_isSome_iff.mp h)
  rw [expandFrom, hfront]

theorem expandFrom_skip (front rest : List Char) :
    expandFrom env whole front.length (front ++ rest) = expandFrom env whole 0 rest := by
  induction front with
  | nil => rfl
  | cons c front ih => exact ih

theorem expandFrom_literal (h : ¬ opener <:+: front) (hcut : CutsNone opener front rest) :
    expandFrom env whole 0 (front ++ rest) = (expandFrom env whole 0 rest).map (front ++ ·) := by
  induction front with
  | nil =>
    rw [List.nil_append]
    cases expandFrom env whole 0 rest <;> rfl
  | cons c front ih =>
    have hhere : ¬ opener <+: c :: (front ++ rest) := by
      rintro ⟨more, hmore⟩
      rcases hcut [] more (by simp [hmore]) with hpart | hnil
      · exact h hpart.isInfix
      · exact absurd (List.prefix_nil.mp hnil) (List.cons_ne_nil c front)
    rw [List.infix_cons_iff, not_or] at h
    rw [List.cons_append, expandFrom_cons hhere, ih h.2 hcut.of_cons]
    cases expandFrom env whole 0 rest <;> rfl

theorem expandFrom_opener (behind : List Char) :
    expandFrom env whole 0 (opener ++ behind) =
      match splitAt? closer behind with
      | none => .error (.unclosed whole)
      | some (name, _) =>
        match env.get? (String.ofList name) with
        | none => .error (.unknown (String.ofList name))
        | some value =>
          (expandFrom env whole (name.length + 2) ('\x7b' :: behind)).map (value.toList ++ ·) :=
  rfl

theorem expandFrom_unclosed (h : closer ∉ cs) :
    expandFrom env whole 0 (opener ++ cs) = .error (.unclosed whole) := by
  have hnone : splitAt? closer cs = none :=
    Option.eq_none_iff_forall_ne_some.mpr fun (name, rest) hsplit =>
      h ((splitAt?_eq_some hsplit).1 ▸ List.mem_append_right name List.mem_cons_self)
  rw [expandFrom_opener, hnone]

theorem expandFrom_reference (h : closer ∉ name) (rest : List Char) :
    expandFrom env whole 0 (opener ++ (name ++ closer :: rest)) =
      ((Piece.reference name).value env whole).bind fun text =>
        (expandFrom env whole 0 rest).map (text ++ ·) := by
  have hskip : expandFrom env whole (name.length + 2) ('\x7b' :: (name ++ closer :: rest)) =
      expandFrom env whole 0 rest := by
    have hsplit : '\x7b' :: (name ++ closer :: rest) = '\x7b' :: (name ++ [closer]) ++ rest := by simp
    have hlength : name.length + 2 = ('\x7b' :: (name ++ [closer])).length := by simp
    rw [hsplit, hlength, expandFrom_skip]
  rw [expandFrom_opener, splitAt?_eq_some_iff.mpr ⟨rfl, h⟩]
  dsimp only
  rw [hskip, Piece.value]
  cases env.get? (String.ofList name) <;> rfl

theorem cutsNone_opener (front rest : List Char) : CutsNone opener front (opener ++ rest) :=
  isMarked_opener.cutsNone isMarked_opener

/-- Expanding fills in the pieces of a text. -/
theorem Reads.expandFrom_eq {pieces : List Piece} (h : Reads cs pieces) :
    expandFrom env whole 0 cs = Piece.fill env whole pieces := by
  induction h with
  | @plain text hplain =>
    have hcut : CutsNone opener text [] := fun x y heq => .inl ⟨y, by simpa using heq.symm⟩
    have hliteral : expandFrom env whole 0 (text ++ []) = _ := expandFrom_literal hplain hcut
    rwa [List.append_nil] at hliteral
  | @reference front name rest pieces hfront hname hrest ih =>
    rw [List.append_assoc, expandFrom_literal hfront (cutsNone_opener front _),
      expandFrom_reference hname, ih]
    rfl
  | @unclosed front text hfront htext =>
    rw [List.append_assoc, expandFrom_literal hfront (cutsNone_opener front _),
      expandFrom_unclosed htext]
    rfl

end Expansion

section Loop

/-- What a turn of the loop leads to: what is put out and what is left for the next, or the end. -/
inductive Turn
  | next (out rest : List Char)
  | done (result : Except ReferenceError (List Char))

def close? (env : Environment) (whole : String) (out behind : List Char) : Option Turn :=
  match position? [closer] behind with
  | none => some (.done (.error (.unclosed whole)))
  | some stop => do
    let (name, _) ← cut? stop behind
    match env.get? (String.ofList name) with
    | none => some (.done (.error (.unknown (String.ofList name))))
    | some value => do
      let (_, rest) ← cut? (stop + 1) behind
      some (.next (out ++ value.toList) rest)

/-- A turn of the loop. Both ends of a reference are searched for, and the text is cut at their byte
positions; nothing if a cut is a fault. -/
def turn? (env : Environment) (whole : String) (out rest : List Char) : Option Turn :=
  match position? opener rest with
  | none => some (.done (.ok (out ++ rest)))
  | some start => do
    let (front, _) ← cut? start rest
    let (_, behind) ← cut? (start + 2) rest
    close? env whole (out ++ front) behind

/-- The loop ends, without a fault, with the result. -/
inductive Ends (env : Environment) (whole : String) :
    List Char → List Char → Except ReferenceError (List Char) → Prop
  | done {out rest : List Char} {result : Except ReferenceError (List Char)} :
    turn? env whole out rest = some (.done result) → Ends env whole out rest result
  | next {out rest out' rest' : List Char} {result : Except ReferenceError (List Char)} :
    turn? env whole out rest = some (.next out' rest') → Ends env whole out' rest' result →
      Ends env whole out rest result

variable {result : Except ReferenceError (List Char)}

theorem ends_iff_of_done {last : Except ReferenceError (List Char)}
    (h : turn? env whole out rest = some (.done last)) :
    Ends env whole out rest result ↔ result = last := by
  constructor
  · rintro (hdone | ⟨hnext, -⟩)
    · cases h.symm.trans hdone
      rfl
    · cases h.symm.trans hnext
  · rintro rfl
    exact .done h

theorem ends_iff_of_next {out' rest' : List Char}
    (h : turn? env whole out rest = some (.next out' rest')) :
    Ends env whole out rest result ↔ Ends env whole out' rest' result := by
  constructor
  · rintro (hdone | ⟨hnext, hends⟩)
    · cases h.symm.trans hdone
    · cases h.symm.trans hnext
      exact hends
  · exact .next h

theorem turn?_plain (h : ¬ opener <:+: cs) :
    turn? env whole out cs = some (.done (.ok (out ++ cs))) := by
  rw [turn?, position?_of_absent h]

theorem turn?_opener (h : ¬ opener <:+: front) (behind : List Char) :
    turn? env whole out (front ++ opener ++ behind) = close? env whole (out ++ front) behind := by
  have hstart : cut? (byteLength front) (front ++ opener ++ behind) = some (front, opener ++ behind) := by
    rw [List.append_assoc, cut?_byteLength]
  have hbehind : cut? (byteLength front + 2) (front ++ opener ++ behind) =
      some (front ++ opener, behind) :=
    cut?_eq_some_iff.mpr ⟨rfl, byteLength_append front opener⟩
  rw [turn?, position?_append isMarked_opener h]
  simp only [hstart, hbehind, Option.bind_eq_bind, Option.bind_some]

theorem close?_unclosed (h : closer ∉ cs) :
    close? env whole out cs = some (.done (.error (.unclosed whole))) := by
  rw [close?, position?_of_absent ((List.singleton_infix_iff closer cs).not.mpr h)]

theorem close?_reference (h : closer ∉ name) (rest : List Char) :
    close? env whole out (name ++ closer :: rest) =
      match (Piece.reference name).value env whole with
      | .ok text => some (.next (out ++ text) rest)
      | .error e => some (.done (.error e)) := by
  have hmarked : IsMarked closer [closer] := by decide
  have hstop : position? [closer] (name ++ closer :: rest) = some (byteLength name) := by
    have hposition := position?_append (b := rest) hmarked
      ((List.singleton_infix_iff closer name).not.mpr h)
    rwa [List.append_assoc] at hposition
  have hrest : cut? (byteLength name + 1) (name ++ closer :: rest) = some (name ++ [closer], rest) :=
    cut?_eq_some_iff.mpr ⟨by simp, byteLength_append name [closer]⟩
  rw [close?, hstop, Piece.value]
  simp only [cut?_byteLength, Option.bind_eq_bind, Option.bind_some]
  cases env.get? (String.ofList name) with
  | none => rfl
  | some value => simp only [hrest, Option.bind_some]

/-- The loop fills in the pieces of a text, one reference a turn. -/
theorem Reads.ends_iff {pieces : List Piece} (h : Reads cs pieces) : Ends env whole out cs result ↔
    result = (Piece.fill env whole pieces).map (out ++ ·) := by
  induction h generalizing out with
  | @plain text hplain =>
    rw [ends_iff_of_done (turn?_plain hplain), Piece.fill_cons_of_ok rfl]
    simp [Piece.fill, Except.map]
  | @reference front name rest pieces hfront hname hrest ih =>
    have hturn : turn? env whole out _ = _ := turn?_opener hfront (name ++ closer :: rest)
    rw [close?_reference hname] at hturn
    rw [Piece.fill_cons_of_ok rfl]
    cases hvalue : (Piece.reference name).value env whole with
    | ok text =>
      rw [hvalue] at hturn
      rw [ends_iff_of_next hturn, ih, Piece.fill_cons_of_ok hvalue]
      cases Piece.fill env whole pieces <;> simp [Except.map]
    | error e =>
      rw [hvalue] at hturn
      rw [ends_iff_of_done hturn, Piece.fill_cons_of_error hvalue]
      rfl
  | @unclosed front text hfront htext =>
    have hturn : turn? env whole out _ = _ := turn?_opener hfront text
    rw [close?_unclosed htext] at hturn
    rw [ends_iff_of_done hturn]
    rfl

end Loop

section Append

theorem cutsNone_of_getLast? (h : cs.getLast? ≠ some '$') : CutsNone opener cs more := by
  intro x y heq
  rw [List.append_assoc, List.append_eq_append_iff] at heq
  rcases heq with ⟨z, hx, -⟩ | ⟨z, hcs, hz⟩
  · exact .inr ⟨z, hx.symm⟩
  rcases z with _ | ⟨c, _ | ⟨d, z⟩⟩
  · exact .inr ⟨[], by simpa using hcs⟩
  · obtain ⟨rfl, -⟩ := List.cons.inj hz
    exact absurd (by simp [hcs]) h
  · obtain ⟨rfl, hbehind⟩ := List.cons.inj hz
    obtain ⟨rfl, -⟩ := List.cons.inj hbehind
    exact .inl ⟨z, by simp [hcs, opener]⟩

theorem Reads.expandFrom_append {pieces : List Piece} (h : Reads cs pieces)
    (hset : ∀ p ∈ pieces, p.IsSet env) (hlast : cs.getLast? ≠ some '$') (more : List Char) :
    expandFrom env whole 0 (cs ++ more) =
      (expandFrom env whole 0 more).map (pieces.flatMap (Piece.shown env) ++ ·) := by
  induction h with
  | @plain text hplain =>
    rw [expandFrom_literal hplain (cutsNone_of_getLast? hlast)]
    simp [Piece.shown]
  | @reference front name rest pieces hfront hname hrest ih =>
    obtain ⟨hset', hrestSet⟩ := List.forall_mem_cons.mp (List.forall_mem_cons.mp hset).2
    have hrestLast : rest.getLast? ≠ some '$' := by
      intro hdollar
      exact hlast (by simp [hdollar, List.getLast?_append, List.getLast?_cons])
    have hsplit : front ++ opener ++ (name ++ closer :: rest) ++ more =
        front ++ (opener ++ (name ++ closer :: (rest ++ more))) := by simp
    rw [hsplit, expandFrom_literal hfront (cutsNone_opener front _), expandFrom_reference hname,
      Piece.value_of_isSet hset', ih hrestSet hrestLast]
    cases expandFrom env whole 0 more <;> simp [Except.bind, Except.map, Piece.shown]
  | @unclosed front text hfront htext =>
    exact (hset (.unclosed text) (by simp)).elim

theorem Piece.fill_within (whole whole' : String) (ps : List Piece) :
    fill env whole' ps = (fill env whole ps).mapError (·.within whole') := by
  induction ps with
  | nil => rfl
  | cons p ps ih =>
    have hvalue : p.value env whole' = (p.value env whole).mapError (·.within whole') := by
      cases p with
      | literal text => rfl
      | reference name =>
        simp only [value]
        cases env.get? (String.ofList name) <;> rfl
      | unclosed text => rfl
    rw [fill, fill, ih, hvalue]
    cases p.value env whole with
    | error e => rfl
    | ok text => cases fill env whole ps <;> rfl

theorem expand_append {text result : String} (h : env.expand text = .ok result)
    (hlast : text.toList.getLast? ≠ some '$') (more : String) :
    env.expand (text ++ more) =
      ((env.expand more).mapError (·.within (text ++ more))).map (result ++ ·) := by
  obtain ⟨pieces, hpieces⟩ := exists_reads text.toList
  obtain ⟨others, hothers⟩ := exists_reads more.toList
  obtain ⟨cs, hcs, rfl⟩ := map_eq_ok.mp h
  rw [hpieces.expandFrom_eq] at hcs
  obtain ⟨hset, rfl⟩ := Piece.fill_eq_ok_iff.mp hcs
  rw [expand, expand, String.toList_append, hpieces.expandFrom_append hset hlast,
    hothers.expandFrom_eq, hothers.expandFrom_eq, Piece.fill_within more (text ++ more)]
  cases Piece.fill env more others <;> simp [Except.map, Except.mapError, String.ofList_append]

end Append

/-- Expanding reads the pieces of a text once. The loop ends without a fault in what `expand` gives; the
text is accepted exactly if all its references are closed and set, with what stands for the pieces; else
the first piece that nothing stands for is told; and what follows an accepted text is expanded for itself. -/
structure SinglePass (env : Environment) (text : String) : Prop where
  ends : ∀ result, Ends env text [] text.toList result ↔ result = (env.expand text).map String.toList
  reads : ∃! pieces, Reads text.toList pieces
  accepts : ∀ pieces, Reads text.toList pieces → ∀ result, env.expand text = .ok result ↔
    (∀ p ∈ pieces, p.IsSet env) ∧ result.toList = pieces.flatMap (Piece.shown env)
  refuses : ∀ pieces, Reads text.toList pieces → ∀ e, env.expand text = .error e ↔
    ∃ before p after, pieces = before ++ p :: after ∧ (∀ q ∈ before, q.IsSet env) ∧
      p.value env text = .error e
  append : ∀ result, env.expand text = .ok result → text.toList.getLast? ≠ some '$' →
    ∀ more, env.expand (text ++ more) =
      ((env.expand more).mapError (·.within (text ++ more))).map (result ++ ·)

/-- References are replaced in a single pass, in every text and every environment. -/
theorem expand_singlePass (env : Environment) (text : String) : env.SinglePass text := by
  obtain ⟨pieces, hpieces⟩ := exists_reads text.toList
  have hexpand : env.expand text = (Piece.fill env text pieces).map String.ofList := by
    rw [expand, hpieces.expandFrom_eq]
  refine ⟨fun result => ?_, ⟨pieces, hpieces, fun _ h => h.unique hpieces⟩, fun ps hps result => ?_,
    fun ps hps e => ?_, fun _ h hlast more => expand_append h hlast more⟩
  · rw [hpieces.ends_iff, hexpand]
    cases Piece.fill env text pieces <;> simp [Except.map]
  · rw [hps.unique hpieces, hexpand, map_eq_ok]
    simp only [Piece.fill_eq_ok_iff]
    constructor
    · rintro ⟨_, ⟨hset, rfl⟩, rfl⟩
      exact ⟨hset, String.toList_ofList⟩
    · rintro ⟨hset, hresult⟩
      exact ⟨_, ⟨hset, hresult⟩, String.ofList_toList⟩
  · rw [hps.unique hpieces, hexpand, ← Piece.fill_eq_error_iff]
    cases Piece.fill env text pieces <;> simp [Except.map]

/-- The value is not read again, and behind a dollar sign a reference may begin in what follows. -/
example : let env : Environment := [("KEY", "$\x7bHOST\x7d"), ("HOST", "north")]
    env.expand "key=$\x7bKEY\x7d" = .ok "key=$\x7bHOST\x7d" ∧ env.expand "$" = .ok "$" ∧
      env.expand "\x7bHOST\x7d" = .ok "\x7bHOST\x7d" ∧ env.expand "$\x7bHOST\x7d" = .ok "north" := by
  decide +kernel

end Environment
end SeriesAlarm
