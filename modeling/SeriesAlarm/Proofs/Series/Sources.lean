import SeriesAlarm.Proofs.Expr.Absence

/-!
# Two sources of one series

A folder reads the file of a series and puts in only what lies in the window; memory holds every
sample and cuts the window out when it is asked. Samples stand in the order of their instants, so it
is all the same whether a sample is cut off before it is put in or after, and the two answer alike.
-/

namespace SeriesAlarm

variable {t first last : Instant} {value : Float} {samples : List Sample}

def InOrder (samples : List Sample) : Prop := samples.Pairwise fun a b => a.1 < b.1

theorem fst_mem_insertSample {s : Sample} (h : s ∈ insertSample t value samples) :
    s.1 = t ∨ s ∈ samples := by
  induction samples with
  | nil => exact .inl (congrArg Prod.fst (List.mem_singleton.mp h))
  | cons r rest ih =>
    unfold insertSample at h
    split at h
    · rcases List.mem_cons.mp h with rfl | h
      · exact .inl rfl
      · exact .inr h
    · split at h
      · rcases List.mem_cons.mp h with rfl | h
        · exact .inl rfl
        · exact .inr (List.mem_cons_of_mem r h)
      · rcases List.mem_cons.mp h with rfl | h
        · exact .inr List.mem_cons_self
        · exact (ih h).imp_right (List.mem_cons_of_mem r)

theorem InOrder.insertSample (h : InOrder samples) : InOrder (insertSample t value samples) := by
  induction samples with
  | nil => exact List.pairwise_singleton _ _
  | cons r rest ih =>
    obtain ⟨hhead, htail⟩ := List.pairwise_cons.mp h
    unfold SeriesAlarm.insertSample
    split
    · next hlt =>
      refine List.pairwise_cons.mpr ⟨fun s hs => ?_, h⟩
      rcases List.mem_cons.mp hs with rfl | hs
      · exact hlt
      · exact Int.lt_trans hlt (hhead s hs)
    · split
      · next heq => exact List.pairwise_cons.mpr ⟨fun s hs => heq ▸ hhead s hs, htail⟩
      · next hge hne =>
        refine List.pairwise_cons.mpr ⟨fun s hs => ?_, ih htail⟩
        rcases fst_mem_insertSample hs with hst | hs
        · have hnanos : r.1.nanos ≠ t.nanos := fun heq => hne (Instant.ext heq.symm)
          simp only [Instant.lt_def, hst] at hge ⊢
          omega
        · exact hhead s hs

theorem insertSample_of_forall_lt (h : ∀ s ∈ samples, t < s.1) :
    insertSample t value samples = (t, value) :: samples := by
  cases samples with
  | nil => rfl
  | cons s rest => rw [insertSample, if_pos (h s List.mem_cons_self)]

/-- Cutting off by instants and putting in change places. -/
theorem filter_insertSample (p : Instant → Bool) (t : Instant) (value : Float)
    (h : InOrder samples) : (insertSample t value samples).filter (fun s => p s.1) =
      if p t then insertSample t value (samples.filter fun s => p s.1)
      else samples.filter fun s => p s.1 := by
  induction samples with
  | nil => by_cases ht : p t <;> simp [insertSample, ht]
  | cons r rest ih =>
    obtain ⟨hhead, htail⟩ := List.pairwise_cons.mp h
    rw [insertSample]
    split
    · next hlt =>
      have hbefore : ∀ s ∈ (r :: rest).filter fun s => p s.1, t < s.1 := fun s hs => by
        rcases List.mem_cons.mp (List.mem_of_mem_filter hs) with rfl | hs
        · exact hlt
        · exact Int.lt_trans hlt (hhead s hs)
      rw [insertSample_of_forall_lt hbefore, List.filter_cons]
    · split
      · next hge heq =>
        subst heq
        by_cases hr : p r.1 <;> simp [insertSample, hr, hge]
      · next hge hne =>
        rw [List.filter_cons, List.filter_cons, ih htail]
        by_cases hr : p r.1
        · rw [if_pos hr, if_pos hr]
          split
          · rw [insertSample, if_neg hge, if_neg hne]
          · rfl
        · rw [if_neg hr, if_neg hr]

theorem sampleAt?_filter (p : Instant → Bool) (t : Instant) (samples : List Sample) :
    sampleAt? t (samples.filter fun s => p s.1) = if p t then sampleAt? t samples else none := by
  induction samples with
  | nil => simp [sampleAt?]
  | cons r rest ih =>
    rw [List.filter_cons]
    by_cases hrt : r.1 = t
    · by_cases ht : p t <;> simp [sampleAt?, hrt, ht, ih]
    · by_cases hr : p r.1 <;> simp [sampleAt?, hrt, hr, ih]

namespace Series

def insertAll (s : Series) (absent : Float) (entries : List (Instant × Option Float)) : Series :=
  entries.foldl (fun s p => s.insert p.1 (p.2.getD absent)) s

variable {s : Series} {absent : Float}

theorem insertAll_append (entries : List (Instant × Option Float)) (p : Instant × Option Float) :
    s.insertAll absent (entries ++ [p]) =
      (s.insertAll absent entries).insert p.1 (p.2.getD absent) :=
  List.foldl_append

theorem insertAll_eq (entries : List (Instant × Option Float)) :
    s.insertAll absent entries = { s with samples := (s.insertAll absent entries).samples } := by
  induction entries using List.reverseRecOn with
  | nil => rfl
  | append_singleton entries p ih => rw [insertAll_append, ih]; rfl

theorem inOrder_insertAll (h : InOrder s.samples) (entries : List (Instant × Option Float)) :
    InOrder (s.insertAll absent entries).samples := by
  induction entries using List.reverseRecOn with
  | nil => exact h
  | append_singleton entries p ih =>
    rw [insertAll_append]
    exact ih.insertSample

theorem window_insert (h : InOrder s.samples) : (s.insert t value).window first last =
    if first ≤ t ∧ t ≤ last then (s.window first last).insert t value else s.window first last := by
  have hcut := filter_insertSample (fun u => decide (first ≤ u ∧ u ≤ last)) t value h
  unfold window insert
  simp only [hcut, decide_eq_true_eq]
  split <;> rfl

/-- A window of what is put in is what of the window is put in. -/
theorem window_insertAll (h : InOrder s.samples) (entries : List (Instant × Option Float)) :
    (s.insertAll absent entries).window first last =
      (s.window first last).insertAll absent
        (entries.filter fun p => first ≤ p.1 ∧ p.1 ≤ last) := by
  induction entries using List.reverseRecOn with
  | nil => rfl
  | append_singleton entries p ih =>
    rw [insertAll_append, window_insert (inOrder_insertAll h entries), ih, List.filter_append,
      List.filter_singleton]
    by_cases hp : first ≤ p.1 ∧ p.1 ≤ last
    · rw [if_pos hp, decide_eq_true hp, cond_true, insertAll_append]
    · rw [if_neg hp, decide_eq_false hp, cond_false, List.append_nil]

theorem valueAt_insertAll (entries : List (Instant × Option Float)) (t : Instant) :
    (s.insertAll absent entries).valueAt t =
      ((entries.reverse.find? fun p => p.1 = t).map (·.2.getD absent)).getD (s.valueAt t) := by
  induction entries using List.reverseRecOn with
  | nil => rfl
  | append_singleton entries p ih =>
    rw [insertAll_append, valueAt_insert, List.reverse_concat, List.find?_cons]
    by_cases hp : p.1 = t <;> simp [hp, ih]

theorem valueAt_window (s : Series) (first last t : Instant) : (s.window first last).valueAt t =
    if first ≤ t ∧ t ≤ last then s.valueAt t else s.missing := by
  have hcut := sampleAt?_filter (fun u => decide (first ≤ u ∧ u ≤ last)) t s.samples
  simp only [decide_eq_true_eq] at hcut
  simp only [valueAt, window, hcut]
  split <;> rfl

end Series

namespace Source

def SeriesFile.sentinel (file : SeriesFile) : Float := file.missing.getD notANumber

def SeriesFile.entryAt? (file : SeriesFile) (t : Instant) : Option Float :=
  (file.samples.reverse.find? fun p => p.1 = t).bind (·.2)

/-- All samples of a file put in one after the other, the sentinel for each null. -/
def SeriesFile.whole (file : SeriesFile) (id : String) (interval : Interval) : Series :=
  Series.insertAll { identifier := id, interval, missing := file.sentinel } file.sentinel file.samples

/-- The folder has a file for the identifier, and this is what it reads as. -/
def SeriesFile.StandsIn (file : SeriesFile) (dir : Option FileNode) (id : String) : Prop :=
  ∃ name content, fileName? id = .ok name ∧ dir.bind (fun d => d.text? [name]) = some content ∧
    (Json.ofText? content).bind SeriesFile.ofJson? = some file

def Holds (all : List Series) (s : Series) : Prop :=
  ∃ before after, all = before ++ s :: after ∧ ∀ other ∈ after, other.identifier ≠ s.identifier

theorem resolve_ofSeries {all : List Series} {s : Series} (holds : Holds all s) {hang : List String}
    (answers : s.identifier ∉ hang) (unlistable : Bool) {first last : Instant}
    (window : first ≤ last) :
    (ofSeries all hang unlistable).resolve s.identifier first last =
      .series (s.window first last) := by
  obtain ⟨before, after, rfl, hafter⟩ := holds
  have hnone : after.reverse.find? (fun other => other.identifier == s.identifier) = none := by
    simpa using hafter
  simp [ofSeries, answers, hnone, Series.window?, window]

theorem resolve_ofFolder {dir : Option FileNode} {id : String} {file : SeriesFile}
    {interval : Interval} (stands : file.StandsIn dir id)
    (parses : Interval.parse file.interval = .ok interval) (first last : Instant) :
    (ofFolder dir).resolve id first last =
      .series ((file.whole id interval).window first last) := by
  obtain ⟨name, content, hname, hcontent, hfile⟩ := stands
  have hempty : InOrder ([] : List Sample) := List.Pairwise.nil
  have hseries : file.series id first last =
      .ok ((file.whole id interval).window first last) := by
    rw [SeriesFile.whole, Series.window_insertAll hempty, SeriesFile.series, parses]
    rfl
  have hread : readSeries dir id first last = .ok ((file.whole id interval).window first last) := by
    simp only [readSeries, hname, bind, Except.bind, hcontent, hfile, hseries]
  simp only [ofFolder, hread]

theorem valueAt_whole (file : SeriesFile) (id : String) (interval : Interval) (t : Instant) :
    (file.whole id interval).valueAt t = (file.entryAt? t).getD file.sentinel := by
  rw [SeriesFile.whole, Series.valueAt_insertAll, SeriesFile.entryAt?]
  cases file.samples.reverse.find? fun p => p.1 = t with
  | none => rfl
  | some p => cases hp : p.2 <;> simp [hp]

/-- The folder with the file of a series and a memory with all of its samples answer with one series.
It reads as the last entry of each instant of the window, and as missing outside. -/
theorem resolve_ofFolder_agrees {dir : Option FileNode} {id : String} {file : SeriesFile}
    {interval : Interval} {all : List Series} {hang : List String} {first last : Instant}
    (stands : file.StandsIn dir id) (parses : Interval.parse file.interval = .ok interval)
    (holds : Holds all (file.whole id interval)) (answers : id ∉ hang) (window : first ≤ last)
    (unlistable : Bool) :
    ∃ s, (ofFolder dir).resolve id first last = .series s ∧
      (ofSeries all hang unlistable).resolve id first last = .series s ∧
      s.identifier = id ∧ s.interval = interval ∧ s.missing = file.sentinel ∧
      (∀ t, first ≤ t → t ≤ last → s.valueAt t = (file.entryAt? t).getD file.sentinel) ∧
      ∀ t, t < first ∨ last < t → s.valueAt t = s.missing ∧ s.isMissing (s.valueAt t) = true := by
  have hwhole : (file.whole id interval).identifier = id ∧
      (file.whole id interval).interval = interval ∧
      (file.whole id interval).missing = file.sentinel := by
    rw [SeriesFile.whole, Series.insertAll_eq]
    exact ⟨rfl, rfl, rfl⟩
  refine ⟨(file.whole id interval).window first last, resolve_ofFolder stands parses first last,
    ?_, hwhole.1, hwhole.2.1, hwhole.2.2, fun t hfirst hlast => ?_, fun t hout => ?_⟩
  · have hmemory := resolve_ofSeries holds (hwhole.1 ▸ answers) unlistable window
    rwa [hwhole.1] at hmemory
  · rw [Series.valueAt_window, if_pos ⟨hfirst, hlast⟩, valueAt_whole]
  · have houtside : ¬ (first ≤ t ∧ t ≤ last) := by
      simp only [Instant.le_def, Instant.lt_def] at hout ⊢
      omega
    have hvalue : ((file.whole id interval).window first last).valueAt t =
        ((file.whole id interval).window first last).missing := by
      rw [Series.valueAt_window, if_neg houtside]
      rfl
    refine ⟨hvalue, ?_⟩
    rw [Series.isMissing, hvalue, isMissingValue_self]

def onTheDay (hour : Nat) : Instant := .ofDate ⟨2006, 5, 20⟩ (3600 * hour)

/-- A file out of order: 06:00 is entered twice, the second time as null. -/
def stageText : String :=
  "\x7b\"interval\": \"1Hour\", \"missing\": -999.0, \"samples\": [" ++
    "[\"2006-05-20T07:00:00\", 2.5], [\"2006-05-20T06:00:00\", 1.5], " ++
    "[\"2006-05-20T06:00:00\", null], [\"2006-05-20T05:00:00\", 0.5]]\x7d"

def stageFile : SeriesFile where
  interval := "1Hour"
  missing := some (-999)
  samples :=
    [(onTheDay 7, some 2.5), (onTheDay 6, some 1.5), (onTheDay 6, none), (onTheDay 5, some 0.5)]

/-- From 06:00 to 07:00, asked of a memory that held another series of that name before. -/
theorem resolve_ofFolder_agrees_stage :
    let dir := FileNode.folder [("RIVER.STAGE.json", .file (some stageText))]
    let hourly : Interval := { base := .hour, multiplier := 1 }
    let whole := stageFile.whole "RIVER.STAGE" hourly
    let all := [{ whole with samples := [] }, whole, { whole with identifier := "RIVER.FLOW" }]
    (stageFile.StandsIn (some dir) "RIVER.STAGE" ∧ Interval.parse stageFile.interval = .ok hourly ∧
      Holds all whole ∧ "RIVER.STAGE" ∉ ["RIVER.FLOW"] ∧ onTheDay 6 ≤ onTheDay 7) ∧
    ∃ s, (ofFolder (some dir)).resolve "RIVER.STAGE" (onTheDay 6) (onTheDay 7) = .series s ∧
      (ofSeries all ["RIVER.FLOW"] false).resolve "RIVER.STAGE" (onTheDay 6) (onTheDay 7) =
        .series s ∧
      s.identifier = "RIVER.STAGE" ∧ s.interval = hourly ∧ s.missing = stageFile.sentinel ∧
      (∀ t, onTheDay 6 ≤ t → t ≤ onTheDay 7 →
        s.valueAt t = (stageFile.entryAt? t).getD stageFile.sentinel) ∧
      ∀ t, t < onTheDay 6 ∨ onTheDay 7 < t →
        s.valueAt t = s.missing ∧ s.isMissing (s.valueAt t) = true := by
  intro dir hourly whole all
  have stands : stageFile.StandsIn (some dir) "RIVER.STAGE" :=
    ⟨"RIVER.STAGE.json", stageText, by decide, by decide +kernel, by decide +kernel⟩
  have parses : Interval.parse stageFile.interval = .ok hourly := by decide +kernel
  have holds : Holds all whole := by
    refine ⟨[{ whole with samples := [] }], [{ whole with identifier := _ }], rfl, ?_⟩
    simp [whole, stageFile, SeriesFile.whole, Series.insertAll, Series.insert]
  have answers : "RIVER.STAGE" ∉ ["RIVER.FLOW"] := by decide
  have window : onTheDay 6 ≤ onTheDay 7 := by decide
  exact ⟨⟨stands, parses, holds, answers, window⟩,
    resolve_ofFolder_agrees stands parses holds answers window false⟩

end Source
end SeriesAlarm
