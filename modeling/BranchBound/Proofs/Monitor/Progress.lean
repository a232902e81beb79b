/-
The progress table of a run against its calls. What the table has to tell is read off the calls
alone (`entries`): one line for each update of the best known bound, one for each pop that is due,
and two for each flush, with the number of pending cells and the latest bound at that moment. The
number of live cells, which the table works out from four counters, is that of the pending cells as
long as no counter has reached its limit. Main statement (`progress_truthful`): a table that watches
a run from its start writes these lines, the header once and before them, also when it has a clock,
unless the interval passes between two lines. Whoever reads the lines (`Told.read?`), knowing nothing
but which columns and which words of a flush are numbers, gets all the numbers back.
-/
import BranchBound.Proofs.Decimal.Reading
import BranchBound.Proofs.Frontier.Journal

namespace BranchBound

variable {f : Format} {σ : Type}

/-! ## What a table has to tell -/

/-- What a progress table tells of a call. -/
inductive Entry (f : Format) where
  /-- How far the search is: the statistics, the number of pending cells and the latest bound. -/
  | progress (statistics : Statistics) (live : Nat) (latest : Option (Binary f))
  /-- All pending cells were discarded, so many. -/
  | flush (discarded : Nat) (statistics : Statistics)
  deriving DecidableEq

namespace Entry

/-- The line of the headings. -/
def headings : String :=
  "Elapsed   | Pushed       | Popped       | Live       | High water | Pruned     | Best bound    "

/-- A rule across the table. -/
def rule : String := String.ofList (List.replicate 96 '-')

/-- The latest bound as a field: a number, or the word for none yet. -/
def boundField : Option (Binary f) → String
  | some bound => if bound.isFinite then bound.text .plain else "Inf"
  | none => "Inf"

/-- The fields of a line of progress, each with the width of its column. -/
def fields (s : Statistics) (live : Nat) (latest : Option (Binary f)) : List (Nat × String) :=
  [(9, "<elapsed>"), (12, s.pushed.repr), (12, s.popped.repr), (10, live.repr),
    (10, s.highWater.repr), (10, s.pruned.repr), (14, boundField latest)]

/-- The words of the line that tells of a flush. -/
def words (discarded : Nat) (s : Statistics) : List String :=
  ["Frontier", "flushed:", discarded.repr, "cells", "discarded,", s.popped.repr, "popped,",
    s.pruned.repr, "pruned."]

/-- The lines of an entry. -/
def lines : Entry f → List String
  | progress s live latest => [Text.row (fields s live latest)]
  | flush discarded s => [rule, " ".intercalate (words discarded s)]

end Entry

/-- The latest bound after a call, if `latest` was the one before it. -/
def Operation.latest (latest : Option (Binary f)) : Operation f → Option (Binary f)
  | setBestBound bound | updateBestBound bound => if bound.isNaN then latest else some bound
  | _ => latest

/-- The entry for a call with that answer, if there is one: for a bound that is a number, for a pop
that hands a cell out, if the number of pops has no bit of the mask and no interval has to pass, and
for a flush. So many cells were pending before the call, and the others are the statistics, the
number of pending cells and the latest bound after it. -/
def Operation.entry? (interval mask before : Nat) (s : Statistics) (live : Nat)
    (latest : Option (Binary f)) : Operation f → Except Failure (Answer f) → Option (Entry f)
  | setBestBound bound, _ | updateBestBound bound, _ =>
    if bound.isNaN then none else some (.progress s live latest)
  | pop, .ok _ =>
    if interval = 0 ∧ s.popped &&& mask = 0 then some (.progress s live latest) else none
  | flush, _ => some (.flush before s)
  | _, _ => none

/-- The entry for a call, if there is one and if `latest` was the latest bound before it. -/
def Call.entry? (interval mask : Nat) (statistics : σ → Statistics) (size : σ → Nat)
    (latest : Option (Binary f)) (c : Call σ f) : Option (Entry f) :=
  c.operation.entry? interval mask (size c.before) (statistics c.step.state) (size c.step.state)
    (c.operation.latest latest) c.step.answer

/-- The entries for some calls, if `latest` was the latest bound before them. -/
def entries (interval mask : Nat) (statistics : σ → Statistics) (size : σ → Nat) :
    Option (Binary f) → List (Call σ f) → List (Entry f)
  | _, [] => []
  | latest, c :: rest =>
    (c.entry? interval mask statistics size latest).toList ++
      entries interval mask statistics size (c.operation.latest latest) rest

theorem entries_append_singleton (interval mask : Nat) (statistics : σ → Statistics)
    (size : σ → Nat) (latest : Option (Binary f)) (calls : List (Call σ f)) (c : Call σ f) :
    entries interval mask statistics size latest (calls ++ [c]) =
      entries interval mask statistics size latest calls ++
        (c.entry? interval mask statistics size
          ((calls.map (·.operation)).foldl Operation.latest latest)).toList := by
  induction calls generalizing latest with
  | nil => simp [entries]
  | cons first rest ih => simp [entries, ih]

theorem map_operation_callsFrom (apply : σ → Operation f → Step σ f (Answer f)) (start : σ)
    (operations : List (Operation f)) :
    (callsFrom apply start operations).map (·.operation) = operations := by
  induction operations generalizing start with
  | nil => rfl
  | cons operation rest ih => simp [callsFrom, ih]

namespace ProgressTable

variable {t : ProgressTable f}

/-- The lines of some entries, the header before them if it is missing. -/
def page (t : ProgressTable f) : List (Entry f) → List String
  | [] => []
  | e :: es =>
    (if t.hasHeader then [] else [Entry.headings, Entry.rule]) ++ (e :: es).flatMap Entry.lines

/-- The table after some entries and with another latest bound. -/
def after (t : ProgressTable f) (latest : Option (Binary f)) (es : List (Entry f)) :
    ProgressTable f :=
  { t with hasHeader := t.hasHeader || !es.isEmpty, bestBound := latest }

theorem after_append (latest latest' : Option (Binary f)) (es es' : List (Entry f)) :
    (t.after latest es).after latest' es' = t.after latest' (es ++ es') := by
  rcases es with _ | ⟨e, es⟩ <;> simp [after]

/-- The header is written with the first entry of all. -/
theorem page_append (latest : Option (Binary f)) (es es' : List (Entry f)) :
    t.page (es ++ es') = t.page es ++ (t.after latest es).page es' := by
  rcases es with _ | ⟨e, es⟩ <;> rcases es' with _ | ⟨e', es'⟩ <;> simp [page, after]

end ProgressTable

/-! ## Reading the lines -/

/-- What a reader learns from a line. -/
inductive Told (f : Format) where
  /-- Some numbers of cells, and the best known bound if there is one that is finite. -/
  | progress (pushed popped live highWater pruned : Nat) (bound : Option (Binary f))
  | flush (discarded popped pruned : Nat)
  deriving DecidableEq

namespace Told

/-- A bound, or the word for none. -/
def readBound? (field : String) : Option (Option (Binary f)) :=
  match Binary.read? field with
  | some bound => some (some bound)
  | none => if field = "Inf" then some none else none

/-- A line of nine words, of which the third, the sixth and the eighth are numbers. -/
def readFlush? (line : String) : Option (Told f) :=
  match (line.toList.splitOn ' ').map String.ofList with
  | [_, _, discarded, _, _, popped, _, pruned, _] => do
    return flush (← Text.number? discarded.toList) (← Text.number? popped.toList)
      (← Text.number? pruned.toList)
  | _ => none

/-- What a line tells, if it tells anything: it has seven fields, all but the first of which are
numbers, or it has no bars and is read by its words. -/
def read? (line : String) : Option (Told f) :=
  match Text.cells line with
  | [_, pushed, popped, live, highWater, pruned, bound] => do
    return progress (← Text.number? pushed.toList) (← Text.number? popped.toList)
      (← Text.number? live.toList) (← Text.number? highWater.toList)
      (← Text.number? pruned.toList) (← readBound? bound)
  | [_] => readFlush? line
  | _ => none

end Told

namespace Entry

/-- What a reader has to learn from an entry. -/
def told : Entry f → Told f
  | progress s live latest =>
    .progress s.pushed s.popped live s.highWater s.pruned (latest.filter (·.isFinite))
  | flush discarded s => .flush discarded s.popped s.pruned

theorem readBound?_boundField (latest : Option (Binary f)) :
    Told.readBound? (boundField latest) = some (latest.filter (·.isFinite)) := by
  have hnone : Told.readBound? "Inf" = some (none : Option (Binary f)) := by
    have htext : "Inf".toList = ['I', 'n', 'f'] := by simp
    have hread : Binary.read? "Inf" = (none : Option (Binary f)) := by
      unfold Binary.read?
      rw [htext]
      rfl
    rw [Told.readBound?, hread]
    rfl
  rcases latest with _ | bound
  · exact hnone
  · by_cases finite : bound.isFinite = true
    · simp [boundField, Option.filter, finite, Told.readBound?, Binary.read?_text finite]
    · simpa [boundField, Option.filter, finite] using hnone

theorem solid_boundField (latest : Option (Binary f)) : Text.Solid (boundField latest) := by
  have hnone : Text.Solid "Inf" := by simp [Text.Solid]
  rcases latest with _ | bound
  · exact hnone
  · by_cases finite : bound.isFinite = true
    · simpa [boundField, finite] using Binary.solid_text finite
    · simpa [boundField, finite] using hnone

/-- The numbers of a line of progress are read back. -/
theorem read?_row (s : Statistics) (live : Nat) (latest : Option (Binary f)) :
    Told.read? (Text.row (fields s live latest)) = some (progress s live latest).told := by
  have hmark : Text.Solid "<elapsed>" := by simp [Text.Solid]
  have solid : ∀ field ∈ fields s live latest, Text.Solid field.2 := by
    simp [fields, hmark, Text.solid_repr, solid_boundField]
  unfold Told.read?
  rw [Text.cells_row (by simp [fields]) solid]
  simp only [fields, List.map_cons, List.map_nil, Text.number?_repr, readBound?_boundField]
  rfl

/-- The numbers of a flush are read back. -/
theorem read?_words (discarded : Nat) (s : Statistics) :
    Told.read? (" ".intercalate (words discarded s)) =
      some (flush discarded s : Entry f).told := by
  have hwords : ∀ word ∈ words discarded s, Text.Solid word := by
    have hliteral : ∀ word ∈ ["Frontier", "flushed:", "cells", "discarded,", "popped,", "pruned."],
        Text.Solid word := by
      simp [Text.Solid]
    simp only [List.forall_mem_cons] at hliteral
    simp [words, Text.solid_repr, hliteral]
  have htext : (" ".intercalate (words discarded s)).toList =
      [' '].intercalate ((words discarded s).map String.toList) := by
    rw [String.toList_intercalate]
    rfl
  have hsplit : ([' '].intercalate ((words discarded s).map String.toList)).splitOn ' ' =
      (words discarded s).map String.toList := by
    refine List.splitOn_intercalate ' ' (fun text htext hblank => ?_) (by simp [words])
    obtain ⟨word, hword, rfl⟩ := List.mem_map.1 htext
    exact (hwords word hword _ hblank).1 rfl
  have hback : ((words discarded s).map String.toList).map String.ofList = words discarded s := by
    simp [Function.comp_def]
  have hflush : Told.readFlush? (" ".intercalate (words discarded s)) =
      some (flush discarded s : Entry f).told := by
    unfold Told.readFlush?
    rw [htext, hsplit, hback]
    simp only [words, Text.number?_repr]
    rfl
  have hbar : '|' ∉ (" ".intercalate (words discarded s)).toList := by
    rw [htext]
    intro hmem
    rcases Text.mem_intercalate hmem with hblank | ⟨text, htext, hmem⟩
    · exact absurd hblank (by decide)
    · obtain ⟨word, hword, rfl⟩ := List.mem_map.1 htext
      exact (hwords word hword _ hmem).2 rfl
  unfold Told.read?
  rw [Text.cells_of_notMem hbar]
  exact hflush

theorem notMem_rule {c : Char} (h : c ≠ '-') : c ∉ rule.toList := by
  have htext : rule.toList = List.replicate 96 '-' := String.toList_ofList
  intro hmem
  rw [htext] at hmem
  exact h (List.eq_of_mem_replicate hmem)

/-- The rule tells nothing: it is one field of one word. -/
theorem read?_rule : Told.read? rule = (none : Option (Told f)) := by
  unfold Told.read? Told.readFlush?
  rw [Text.cells_of_notMem (notMem_rule (by decide)),
    Text.splitOn_of_notMem (notMem_rule (by decide))]
  rfl

/-- The headings tell nothing: they are no numbers. -/
theorem read?_headings : Told.read? headings = (none : Option (Told f)) := by
  have hcells : Text.cells headings =
      ["Elapsed", "Pushed", "Popped", "Live", "High water", "Pruned", "Best bound"] := by
    decide +kernel
  have hpushed : Text.number? "Pushed".toList = none := by decide +kernel
  unfold Told.read?
  rw [hcells]
  simp only [hpushed]
  rfl

/-- The entry is read back from its lines. -/
theorem filterMap_lines (e : Entry f) : e.lines.filterMap Told.read? = [e.told] := by
  cases e with
  | progress s live latest => simp [lines, read?_row]
  | flush discarded s => simp [lines, read?_rule, read?_words]

end Entry

namespace ProgressTable

variable {t : ProgressTable f}

/-- A reader of the page gets the entries back. -/
theorem filterMap_page (es : List (Entry f)) :
    (t.page es).filterMap Told.read? = es.map Entry.told := by
  have hheader : (if t.hasHeader then [] else [Entry.headings, Entry.rule]).filterMap Told.read? =
      ([] : List (Told f)) := by
    split <;> simp [Entry.read?_headings, Entry.read?_rule]
  have hlines : (es.flatMap Entry.lines).filterMap Told.read? = es.map Entry.told := by
    simp [List.filterMap_flatMap, Entry.filterMap_lines, List.map_eq_flatMap]
  rcases es with _ | ⟨e, es⟩
  · rfl
  · rw [page, List.filterMap_append, hheader, hlines, List.nil_append]

theorem headings_ne_rule : Entry.headings ≠ Entry.rule := by
  intro heq
  have hmem : 'E' ∈ Entry.headings.toList := by simp [Entry.headings]
  rw [heq] at hmem
  exact Entry.notMem_rule (by decide) hmem

/-- No line of an entry can be taken for the headings. -/
theorem headings_notMem_lines (e : Entry f) : Entry.headings ∉ e.lines := by
  have hheadings := Entry.read?_headings (f := f)
  cases e with
  | progress s live latest =>
    rintro hmem
    rw [List.mem_singleton.1 hmem, Entry.read?_row] at hheadings
    cases hheadings
  | flush discarded s =>
    rintro hmem
    simp only [Entry.lines, List.mem_cons, List.not_mem_nil, or_false] at hmem
    rcases hmem with hrule | hwords
    · exact headings_ne_rule hrule
    · rw [hwords, Entry.read?_words] at hheadings
      cases hheadings

/-- The headings are written once at most, and only with the header. -/
theorem count_headings_page (es : List (Entry f)) :
    (t.page es).count Entry.headings = if es.isEmpty || t.hasHeader then 0 else 1 := by
  have hlines : (es.flatMap Entry.lines).count Entry.headings = 0 := by
    simp [List.count_eq_zero, headings_notMem_lines]
  rcases es with _ | ⟨e, es⟩
  · rfl
  · rw [page, List.count_append, hlines]
    cases t.hasHeader <;> simp [headings_ne_rule.symm]

/-! ## Writing the lines -/

theorem header_eq (t : ProgressTable f) :
    t.header = if t.hasHeader then [] else [Entry.headings, Entry.rule] := by
  have hheadings : line (columns.map (·.2)) = Entry.headings := by decide +kernel
  rw [header, hheadings]
  rfl

theorem flushed_eq (discarded : Nat) (s : Statistics) :
    flushed discarded s = " ".intercalate (Entry.words discarded s) := by
  have hfront : "Frontier flushed: " = "Frontier" ++ (" " ++ ("flushed:" ++ " ")) := by
    decide +kernel
  have hdiscarded : " cells discarded, " = " " ++ ("cells" ++ (" " ++ ("discarded," ++ " "))) := by
    decide +kernel
  have hpopped : " popped, " = " " ++ ("popped," ++ " ") := by decide +kernel
  have hpruned : " pruned." = " " ++ "pruned." := by decide +kernel
  unfold flushed
  rw [hfront, hdiscarded, hpopped, hpruned]
  simp only [Entry.words, String.intercalate_cons_cons, String.intercalate_singleton,
    String.append_assoc]

/-! ## Several notices -/

/-- The table after some notices, and the lines that it writes. -/
def observeEach (t : ProgressTable f) : List (Notice f) → ProgressTable f × List String
  | [] => (t, [])
  | notice :: rest =>
    let next := t.observe notice
    let last := next.1.observeEach rest
    (last.1, next.2 ++ last.2)

theorem observeEach_append (notices notices' : List (Notice f)) :
    t.observeEach (notices ++ notices') =
      let first := t.observeEach notices
      let second := first.1.observeEach notices'
      (second.1, first.2 ++ second.2) := by
  induction notices generalizing t with
  | nil => rfl
  | cons notice rest ih => simp [observeEach, ih]

/-- A monitor that is a table writes what the table writes. -/
theorem observeEach_leaf (notices : List (Notice f)) :
    (Monitor.leaf (.table t)).observeEach notices =
      (.leaf (.table (t.observeEach notices).1), (t.observeEach notices).2.map .written) := by
  induction notices generalizing t with
  | nil => rfl
  | cons notice rest ih =>
    rw [Monitor.observeEach]
    simp [Monitor.observe, Watcher.observe, observeEach, ih]

/-! ## A table with a clock -/

/-- The table after a notice that it gets so many milliseconds after its last line, and the lines
that it writes. -/
def observeAfter (t : ProgressTable f) (elapsed : Nat) (notice : Notice f) :
    ProgressTable f × List String :=
  match notice.event with
  | .pop _ _ =>
    if t.interval ≤ elapsed ∧ notice.statistics.popped &&& t.mask = 0 then
      t.write [t.progress notice.statistics]
    else (t, [])
  | _ => t.observe notice

/-- The table after some notices, each with what the clock says, and the lines that it writes. -/
def observeEachAfter (t : ProgressTable f) : List (Nat × Notice f) → ProgressTable f × List String
  | [] => (t, [])
  | (elapsed, notice) :: rest =>
    let next := t.observeAfter elapsed notice
    let last := next.1.observeEachAfter rest
    (last.1, next.2 ++ last.2)

/-- No interval has to pass between two lines, or it never passes. -/
def Unreached (t : ProgressTable f) (readings : List (Nat × Notice f)) : Prop :=
  t.interval = 0 ∨ ∀ r ∈ readings, r.1 < t.interval

theorem interval_observe (t : ProgressTable f) (notice : Notice f) :
    (t.observe notice).1.interval = t.interval := by
  rcases notice with ⟨_ | _ | _ | _ | _ | _, s⟩
  case pop =>
    simp only [observe]
    split <;> rfl
  all_goals rfl

theorem observeAfter_eq {elapsed : Nat} (unreached : t.interval = 0 ∨ elapsed < t.interval)
    (notice : Notice f) : t.observeAfter elapsed notice = t.observe notice := by
  rcases notice with ⟨_ | _ | _ | _ | _ | _, s⟩
  case pop =>
    have hdue : t.interval ≤ elapsed ↔ t.interval = 0 := by omega
    simp [observeAfter, observe, isDue, hdue, and_comm]
  all_goals rfl

/-- A clock by which the interval is not reached makes no difference. -/
theorem observeEachAfter_eq {readings : List (Nat × Notice f)} (unreached : t.Unreached readings) :
    t.observeEachAfter readings = t.observeEach (readings.map Prod.snd) := by
  induction readings generalizing t with
  | nil => rfl
  | cons r rest ih =>
    have hfirst : t.interval = 0 ∨ r.1 < t.interval := unreached.imp_right (· r List.mem_cons_self)
    have hrest : (t.observe r.2).1.Unreached rest := by
      rw [Unreached, interval_observe]
      exact unreached.imp_right fun h r hr => h r (List.mem_cons_of_mem _ hr)
    simp [observeEachAfter, observeEach, observeAfter_eq hfirst, ih hrest]

end ProgressTable

/-! ## One call -/

namespace ProgressTable

variable {t : ProgressTable f}

/-- A table passes over cells that are discarded and views that are ranked anew. -/
theorem observeEach_quiet {notices : List (Notice f)}
    (quiet : ∀ n ∈ notices, n.event.kind = .prune ∨ n.event.kind = .reorder) :
    t.observeEach notices = (t, []) := by
  induction notices with
  | nil => rfl
  | cons notice rest ih =>
    have hfirst : t.observe notice = (t, []) := by
      rcases notice with ⟨_ | _ | _ | _ | _ | _, s⟩
      case prune | reorder => rfl
      all_goals simpa using quiet _ List.mem_cons_self
    rw [observeEach, hfirst, ih fun n hn => quiet n (List.mem_cons_of_mem _ hn)]
    rfl

@[simp]
theorem observeEach_prunes (threshold : Binary f) (s : Statistics) (out : List (Cell f × View)) :
    t.observeEach (Notice.prunes threshold s out) = (t, []) :=
  observeEach_quiet fun _ hn => .inl (Notice.kind_of_mem_prunes hn)

@[simp]
theorem observeEach_reorders (s : Statistics) (views : List View) :
    t.observeEach (Notice.reorders s views) = (t, []) :=
  observeEach_quiet fun _ hn => .inr (Notice.kind_of_mem_reorders hn)

@[simp]
theorem observeEach_singleton (notice : Notice f) : t.observeEach [notice] = t.observe notice := by
  simp [observeEach]

theorem write_lines (e : Entry f) : t.write e.lines = (t.after t.bestBound [e], t.page [e]) := by
  simp [write, after, page, header_eq]

theorem observe_pop (view : View) (cell : Cell f) (s : Statistics) :
    let e? := if t.interval = 0 ∧ s.popped &&& t.mask = 0 then
      some (Entry.progress s s.live t.bestBound) else none
    t.observe ⟨.pop view cell, s⟩ = (t.after t.bestBound e?.toList, t.page e?.toList) := by
  by_cases hdue : t.interval = 0 ∧ s.popped &&& t.mask = 0
  · have hisDue : t.isDue s = true := by simp [isDue, hdue]
    simp only [observe, hisDue, hdue, and_self, if_true]
    exact write_lines (.progress s s.live t.bestBound)
  · have hisDue : t.isDue s = false := by
      simpa [isDue] using fun hmask hinterval => hdue ⟨hinterval, hmask⟩
    simp [observe, hisDue, hdue, after, page]

theorem observe_bound (previous current : Binary f) (s : Statistics) :
    let e := Entry.progress s s.live (some current)
    t.observe ⟨.bound previous current, s⟩ = (t.after (some current) [e], t.page [e]) :=
  write_lines (t := { t with bestBound := some current }) (.progress s s.live (some current))

theorem observe_flush (discarded : Nat) (s : Statistics) :
    let e := Entry.flush discarded s
    t.observe ⟨.flush discarded, s⟩ = (t.after t.bestBound [e], t.page [e]) := by
  have hlines : [rule, flushed discarded s] = (Entry.flush discarded s : Entry f).lines := by
    rw [flushed_eq]
    rfl
  show t.write [rule, flushed discarded s] = _
  rw [hlines]
  exact write_lines (.flush discarded s)

end ProgressTable

/-- A table writes the entry for a call, if there is one. -/
theorem Effect.observeEach {a : Outline f} {operation : Operation f}
    {step : Step (Outline f) f (Answer f)} (h : Effect a operation step) (t : ProgressTable f) :
    let s := step.state.statistics
    let latest := operation.latest t.bestBound
    let e? := operation.entry? t.interval t.mask a.content.card s s.live latest step.answer
    t.observeEach step.notices = (t.after latest e?.toList, t.page e?.toList) := by
  have hnone : (t, []) = (t.after t.bestBound [], t.page []) := by
    simp [ProgressTable.after, ProgressTable.page]
  cases h with
  | push counted => exact hnone
  | pop content counted =>
    exact (ProgressTable.observeEach_singleton _).trans (ProgressTable.observe_pop ..)
  | top mem => exact hnone
  | empty which content => rcases which with rfl | rfl <;> exact hnone
  | contract parts counted => exact (ProgressTable.observeEach_prunes ..).trans hnone
  | refused which nan =>
    rcases which with rfl | rfl
    all_goals
      simp only [Operation.latest, Operation.entry?, nan, if_true]
      exact hnone
  | setBestBound views numeric counted =>
    simp [Step.done, Operation.latest, Operation.entry?, numeric,
      ProgressTable.observeEach_append, ProgressTable.observe_bound]
  | updateBestBound views numeric parts contraction counted =>
    simp [Step.done, Operation.latest, Operation.entry?, numeric,
      ProgressTable.observeEach_append, ProgressTable.observe_bound]
  | reorder views counted => exact (ProgressTable.observeEach_reorders ..).trans hnone
  | flush counted =>
    exact (ProgressTable.observeEach_singleton _).trans (ProgressTable.observe_flush ..)

/-! ## Whole runs -/

/-- What a table writes along a run are the entries for its calls, as long as no counter has reached
its limit. -/
theorem Kind.observeEach (k : Kind σ f) {start : σ} (sound : k.Sound start)
    (fresh : (k.outline start).statistics = {}) (empty : (k.outline start).content = 0)
    (t : ProgressTable f) (operations : List (Operation f))
    (fits : (tally (fun s => (k.outline s).view) k.size (callsFrom k.apply start operations)).Fits) :
    let calls := callsFrom k.apply start operations
    let es := entries t.interval t.mask (fun s => (k.outline s).statistics) k.size t.bestBound calls
    t.observeEach (journal calls) =
      (t.after (operations.foldl Operation.latest t.bestBound) es, t.page es) := by
  induction operations using List.reverseRecOn with
  | nil =>
    simp [callsFrom, journal, entries, ProgressTable.observeEach, ProgressTable.after,
      ProgressTable.page]
  | append_singleton operations operation ih =>
    have hlive := k.live_eq sound fresh empty _ fits
    rw [stateAfter_append_singleton] at hlive
    rw [callsFrom_append_singleton, tally_append_singleton] at fits
    have hsound : k.Sound (stateAfter k.apply start operations) :=
      stateAfter_keeps (P := k.Sound) (fun _ operation h => k.keeps h operation) sound operations
    -- the table that the calls before have left goes on with the last one
    have hcall := (k.effect hsound operation).observeEach
      (t.observeEach (journal (callsFrom k.apply start operations))).1
    intro calls es
    simp only [calls, es, callsFrom_append_singleton, journal_append_singleton,
      entries_append_singleton, map_operation_callsFrom, ProgressTable.observeEach_append,
      List.foldl_append]
    rw [ih fits.of_plus] at hcall ⊢
    simp only [Step.mapState, hlive, k.card_content hsound] at hcall
    rw [hcall, ProgressTable.after_append, ProgressTable.page_append]
    rfl

/-- A table that watches a run from its start writes the lines of the entries, the headings once and
before them, and in the end it knows the latest bound. A clock makes no difference by which the
interval is not reached. -/
structure ProgressTable.Truthful (t : ProgressTable f)
    (apply : σ → Operation f → Step σ f (Answer f)) (start : σ) (operations : List (Operation f))
    (es : List (Entry f)) : Prop where
  watched : (Watched.mk start (.leaf (.table t))).run apply operations =
    (⟨stateAfter apply start operations,
      .leaf (.table (t.after (operations.foldl Operation.latest none) es))⟩,
      (t.page es).map .written)
  clocked : ∀ readings, readings.map Prod.snd = journal (callsFrom apply start operations) →
    t.Unreached readings → t.observeEachAfter readings =
      (t.after (operations.foldl Operation.latest none) es, t.page es)
  headings : (t.page es).count Entry.headings = if es.isEmpty then 0 else 1
  /-- Whoever reads the lines learns what the entries tell. -/
  read : (t.page es).filterMap Told.read? = es.map Entry.told

theorem Kind.truthful (k : Kind σ f) {start : σ} (sound : k.Sound start)
    (fresh : (k.outline start).statistics = {}) (empty : (k.outline start).content = 0)
    (operations : List (Operation f)) (interval mask : Nat)
    (fits : (tally (fun s => (k.outline s).view) k.size (callsFrom k.apply start operations)).Fits) :
    ProgressTable.Truthful { interval, mask } k.apply start operations
      (entries interval mask (fun s => (k.outline s).statistics) k.size none
        (callsFrom k.apply start operations)) := by
  have hjournal := k.observeEach sound fresh empty { interval, mask } operations fits
  constructor
  · rw [Watched.run_eq, ProgressTable.observeEach_leaf, hjournal]
  · rintro readings hreadings unreached
    rw [ProgressTable.observeEachAfter_eq unreached, hreadings, hjournal]
  · simp [ProgressTable.count_headings_page]
  · exact ProgressTable.filterMap_page _

/-- As long as no counter has reached its limit, a new table tells the truth of every run that it
watches from the start. -/
theorem progress_truthful :
    (∀ {settings : Settings f} {start : Paired f}, Paired.ofSettings? settings = .ok start →
      ∀ (operations : List (Operation f)) (interval mask : Nat),
        let calls := callsFrom Paired.apply start operations
        (tally Paired.currentView Paired.size calls).Fits →
          ProgressTable.Truthful { interval, mask } Paired.apply start operations
            (entries interval mask Paired.statistics Paired.size none calls)) ∧
    ∀ (ranking : Ranking) (bestBound : Binary f) (operations : List (Operation f))
      (interval mask : Nat),
      let start := Single.ofRanking ranking bestBound
      let calls := callsFrom Single.apply start operations
      (tally (fun _ => .first) Single.size calls).Fits →
        ProgressTable.Truthful { interval, mask } Single.apply start operations
          (entries interval mask Single.statistics Single.size none calls) := by
  constructor
  · rintro settings start made operations interval mask calls fits
    have sound := Paired.sound_of_made made
    obtain rfl := Paired.eq_of_made made
    exact Paired.kind.truthful sound rfl rfl operations interval mask fits
  · intro ranking bestBound operations interval mask start calls fits
    exact Single.kind.truthful (Single.sound_ofRanking ..) rfl rfl operations interval mask fits

/-- Every second pop is due, and a bound that is no number writes nothing: three lines of progress
and one flush. With an interval that seven milliseconds do not reach no pop is due. -/
theorem progress_truthful_alternate :
    let settings : Settings .binary64 := ⟨⟨.goalLower 0, .estimateLower⟩, .firstOnly, .infinity⟩
    let start := Paired.ofSettings settings
    let single : Single .binary64 := .ofRanking .estimateLower .infinity
    let operations : List (Operation .binary64) :=
      [.push (.ofRegion (.entire 1)), .push (.ofRegion (.entire 2)),
        .push { Cell.ofRegion (.entire 3) with estimate := ⟨.one, .infinity⟩ }, .pop,
        .updateBestBound .nan, .updateBestBound .zero, .pop, .setBestBound .one,
        .push (.ofRegion (.entire 1)), .flush]
    let calls := callsFrom Paired.apply start operations
    let es := entries 0 1 Paired.statistics Paired.size none calls
    let callsSingle := callsFrom Single.apply single operations
    let esSingle := entries 1000 1 Single.statistics Single.size none callsSingle
    (Paired.ofSettings? settings = .ok start ∧
      (tally Paired.currentView Paired.size calls).Fits ∧
      es = [.progress ⟨3, 1, 1, 0, 1, 0, 1, 0, 1, 3⟩ 1 (some .zero),
        .progress ⟨3, 2, 2, 0, 1, 0, 1, 0, 1, 3⟩ 0 (some .zero),
        .progress ⟨3, 2, 2, 0, 1, 0, 1, 0, 2, 3⟩ 0 (some .one),
        .flush 1 ⟨4, 2, 2, 0, 1, 1, 1, 0, 2, 3⟩] ∧
      ProgressTable.Truthful { interval := 0, mask := 1 } Paired.apply start operations es) ∧
    (tally (fun _ => .first) Single.size callsSingle).Fits ∧ esSingle.length = 3 ∧
      ProgressTable.Truthful { interval := 1000, mask := 1 } Single.apply single operations esSingle ∧
      ProgressTable.Unreached ({ interval := 1000, mask := 1 } : ProgressTable .binary64)
        ((journal callsSingle).map (Prod.mk 7)) := by
  intro settings start single operations calls es callsSingle esSingle
  obtain ⟨paired, ofRanking⟩ := progress_truthful (f := .binary64)
  constructor
  · have made : Paired.ofSettings? settings = .ok start := rfl
    have fits : (tally Paired.currentView Paired.size calls).Fits := by decide +kernel
    exact ⟨made, fits, by decide +kernel, paired made operations 0 1 fits⟩
  · have fits : (tally (fun _ => .first) Single.size callsSingle).Fits := by decide +kernel
    refine ⟨fits, by decide +kernel, ofRanking .estimateLower .infinity operations 1000 1 fits,
      .inr fun r hr => ?_⟩
    obtain ⟨n, -, rfl⟩ := List.mem_map.1 hr
    exact (by decide : 7 < 1000)

end BranchBound
