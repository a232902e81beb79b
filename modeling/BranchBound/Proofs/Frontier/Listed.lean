/-
The listing of a frontier is the order of its pops. A queue is listed by sorting its entries and popped
from the root of a tree that is repaired each time; if the costs are numbers and no two sequence
numbers are the same, both give out the handles in the one order that there is
(`Heap.Valid.listing_eq_drained`). So the text of a frontier shows, under its heading, one line for each
pending cell, from which its handle can be read (`Pending.handle_eq_of_line_eq`), and pops hand the
cells out line by line. With two views these are the pops of the frontier that only its first view
supplies (`Paired.LinedUp.popsInOrder`). Main statement (`listed_as_popped`): this is so in every state
that a run reaches, and whatever the costs are, a queue that is listed at all is listed with each of
its entries once.
-/
import BranchBound.Heap.Listing
import BranchBound.Proofs.Frontier.Check
import BranchBound.Proofs.Frontier.Distinct
import BranchBound.Proofs.Frontier.Popped
import BranchBound.Proofs.Heap.Drained
import BranchBound.Proofs.Text.Reading

namespace BranchBound

variable {f : Format}

/-! ## Queues -/

namespace Heap

variable {q : Heap f}

theorem Valid.sound (v : q.Valid) (u : Unique q.entries.toList) : q.Sound :=
  ⟨v.indexed, ordered_iff.2 v.order, u.numeric⟩

theorem Unique.hasNumbers (u : Unique q.entries.toList) : q.hasNumbers = true := by
  refine List.all_eq_true.2 fun e he => ?_
  rw [u.numeric e he]
  rfl

/-- A valid queue lists each handle once, in the order in which it gives them out. -/
theorem Valid.listing_eq_drained (v : q.Valid) (u : Unique q.entries.toList) :
    q.listing = .ok q.sorted ∧ (q.sorted.map (·.handle)).Perm q.handles ∧
      ∀ limit, q.size ≤ limit → q.drained limit = q.sorted.map (·.handle) :=
  ⟨if_pos u.hasNumbers, q.sorted_perm.map _, fun _ => drained_eq (v.sound u) u⟩

end Heap

/-! ## Lines -/

/-- A pending cell in a listing. -/
def Pending.line (p : Pending f) : String := "  " ++ p.handle.text ++ ": " ++ p.cell.text ++ "\n"

/-- A line tells the handle of its cell. -/
theorem Pending.handle_eq_of_line_eq {p p' : Pending f} (h : p.line = p'.line) :
    p.handle = p'.handle := by
  have hline : ∀ p : Pending f, ∃ rest, p.line.toList =
      "  CellId(".toList ++ (p.handle.val.repr.toList ++ ')' :: rest) := by
    intro p
    refine ⟨(": " ++ p.cell.text ++ "\n").toList, ?_⟩
    simp [line, Index.text]
  have hnumeral : ∀ (n : Nat) (rest : List Char),
      (n.repr.toList ++ ')' :: rest).takeWhile (· != ')') = n.repr.toList := by
    intro n rest
    have hdigits : ∀ c ∈ n.repr.toList, (c != ')') = true := fun c hc =>
      bne_iff_ne.2 (ne_of_mem_of_not_mem hc (Text.notMem_repr (by decide) n))
    rw [List.takeWhile_append_of_pos hdigits]
    simp
  obtain ⟨rest, hrest⟩ := hline p
  obtain ⟨rest', hrest'⟩ := hline p'
  rw [h, hrest'] at hrest
  have hnumerals := congrArg (List.takeWhile (· != ')')) (List.append_cancel_left hrest)
  rw [hnumeral, hnumeral] at hnumerals
  have hnumber := Text.number?_repr p.handle.val
  rw [← hnumerals, Text.number?_repr] at hnumber
  exact (Index.val_inj.1 (Option.some.inj hnumber)).symm

/-- A queue that ranks the pending cells lists them in the order in which none precedes one before
it. -/
theorem Heap.Ranks.lines_eq {q : Heap f} {ranking : Ranking} {bound : Binary f} {cells : CellStore f}
    (ranks : q.Ranks ranking bound cells.pending) (distinct : (cells.pending.map (·.seq)).Nodup)
    {l : List (Pending f)} (hperm : l.Perm cells.pending)
    (hl : l.Pairwise fun p p' => (p'.entry ranking bound).precedes (p.entry ranking bound) = false) :
    (q.sorted.filterMap fun entry => (cells.get? entry.handle).map fun cell =>
      "  " ++ entry.handle.text ++ ": " ++ cell.text ++ "\n") = l.map Pending.line := by
  have hsorted : q.sorted = l.map (·.entry ranking bound) :=
    (ranks.unique distinct).sorted_of_pairwise ((hperm.map _).trans ranks.entries.symm)
      (List.pairwise_map.2 hl)
  rw [hsorted, List.filterMap_map, ← List.filterMap_eq_map]
  refine List.filterMap_congr fun p hp => ?_
  show (cells.get? p.handle).map _ = some p.line
  rw [CellStore.get?_of_mem (hperm.subset hp)]
  rfl

/-! ## One view -/

namespace Single

variable {s : Single f} {l : List (Pending f)}

/-- The line about the frontier over its listing. -/
def heading (s : Single f) : String :=
  "RankedFrontier(strategy: " ++ s.ranking.text ++ ", best bound: " ++ s.bestBound.text .plain
    ++ ", cells: " ++ s.size.repr ++ ")\n"

theorem LinedUp.text_eq (h : LinedUp l s) :
    s.text = s.heading ++ String.join (l.map Pending.line) := by
  unfold text
  rw [h.sound.ranks.lines_eq h.distinct h.order.perm h.order.sorted]
  rfl

end Single

/-! ## Two views -/

namespace Paired

variable {s : Paired f} {l : List (Pending f)}

/-- The line about the frontier over its listing. -/
def heading (s : Paired f) : String :=
  "DualFrontier(first: " ++ s.rankings.first.text ++ ", second: " ++ s.rankings.second.text
    ++ ", alternation: " ++ s.turn.policy.text ++ ", best bound: " ++ s.bestBound.text .plain
    ++ ", cells: " ++ s.size.repr ++ ")\n"

/-- The frontier with nothing but its first view. -/
def firstAlone (s : Paired f) : Single f where
  cells := s.cells
  queue := s.views.first
  ranking := s.rankings.first
  bestBound := s.bestBound
  statistics := s.statistics

/-- The frontier whose first view supplies all pops to come. -/
def byFirstOnly (s : Paired f) : Paired f := { s with turn := .start .firstOnly }

theorem Sound.firstAlone (h : s.Sound) : s.firstAlone.Sound := ⟨h.store, h.ranks .first⟩

theorem Sound.byFirstOnly (h : s.Sound) : s.byFirstOnly.Sound := ⟨h.store, h.ranks⟩

/-- The pending cells of a sound frontier are in the order of its first view, which supplies all
pops. -/
structure LinedUp (l : List (Pending f)) (s : Paired f) : Prop where
  sound : s.Sound
  turn : s.turn = .start .firstOnly
  first : Single.LinedUp l s.firstAlone

namespace LinedUp

/-- The cells come out in the order of the first view. -/
theorem popsInOrder (h : LinedUp l s) : PopsInOrder Paired.apply Paired.cells s l := by
  refine popsInOrder_of_step (R := LinedUp) (fun h => h.first.order.perm) ?_ ?_ h
  · intro s h
    rw [Paired.apply, (next_of_nil h.sound (List.perm_nil.1 h.first.order.perm.symm)).1]
    rfl
  · intro p l s h
    have hview : s.currentView = .first := congrArg Turn.current h.turn
    have hne := List.ne_nil_of_mem (h.first.order.perm.subset List.mem_cons_self)
    obtain ⟨p', hnext, _, hpop⟩ := pop_spec h.sound hne
    rw [hview] at hnext hpop
    -- the first view alone would hand out the same cell
    obtain rfl : p' = p := h.first.eq_of_isNext hnext
    rw [Paired.apply, hpop, Step.map_done]
    have sound := h.sound.erase p'.handle
    have turn : s.turn.advance = .start .firstOnly := congrArg Turn.advance h.turn
    exact ⟨_, _, rfl, ⟨sound.store, sound.ranks⟩, turn, h.first.erase _⟩

end LinedUp

theorem text_eq (h : s.Sound) (linedUp : Single.LinedUp l s.firstAlone) :
    s.text = s.heading ++ String.join (l.map Pending.line) := by
  have ranks : s.views.first.Ranks s.rankings.first s.bestBound s.cells.pending := h.ranks .first
  unfold text
  rw [ranks.lines_eq linedUp.distinct linedUp.order.perm linedUp.order.sorted]
  rfl

end Paired

/-! ## Runs -/

/-- A text lists the pending cells under a heading as pops from a state hand them out: one line for
each, and so many pops hand out the cells of the first lines and leave those of the others. -/
def ListsPops {σ : Type} (apply : σ → Operation f → Step σ f (Answer f)) (cells : σ → CellStore f)
    (s : σ) (heading text : String) : Prop :=
  ∃ l : List (Pending f), l.Perm (cells s).pending ∧
    text = heading ++ String.join (l.map Pending.line) ∧ PopsInOrder apply cells s l

/-- A valid queue of numbers with distinct sequence numbers lists each handle once, in the order in
which it gives them out. So in every state that a run reaches, if no two pending cells have one sequence
number, the text of a frontier with one view lists the cells as it hands them out, and that of a
frontier with two views as it hands them out if its first view supplies all pops. With fewer pushes
than there are sequence numbers, no two have one. A line tells the handle of its cell, and a listing
shows every entry once also where costs are no numbers. -/
theorem listed_as_popped :
    (∀ q : Heap f, q.Valid → Heap.Unique q.entries.toList →
      q.listing = .ok q.sorted ∧ (q.sorted.map (·.handle)).Perm q.handles ∧
        ∀ limit, q.size ≤ limit → q.drained limit = q.sorted.map (·.handle)) ∧
    (∀ (ranking : Ranking) (bestBound : Binary f) (operations : List (Operation f)),
      let s := stateAfter Single.apply (.ofRanking ranking bestBound) operations
      ((s.cells.pending.map (·.seq)).Nodup →
        ListsPops Single.apply Single.cells s s.heading s.text) ∧
      (operations.countP Operation.isPush < UInt64.size - 1 →
        (s.cells.pending.map (·.seq)).Nodup)) ∧
    (∀ {settings : Settings f} {start : Paired f}, Paired.ofSettings? settings = .ok start →
      ∀ operations : List (Operation f),
        let s := stateAfter Paired.apply start operations
        ((s.cells.pending.map (·.seq)).Nodup →
          ListsPops Paired.apply Paired.cells s.byFirstOnly s.heading s.text) ∧
        (operations.countP Operation.isPush < UInt64.size - 1 →
          (s.cells.pending.map (·.seq)).Nodup)) ∧
    (∀ p p' : Pending f, p.line = p'.line → p.handle = p'.handle) ∧
    ∀ (q : Heap f) (entries : List (HeapEntry f)), q.listing = .ok entries →
      entries.Perm q.entries.toList := by
  refine ⟨fun q v u => v.listing_eq_drained u, ?_, ?_, fun _ _ => Pending.handle_eq_of_line_eq,
    fun _ _ => Heap.listing_perm⟩
  · intro ranking bestBound operations s
    have sound := Single.sound_after_run ranking bestBound operations
    constructor
    · intro distinct
      obtain ⟨l, linedUp⟩ := sound.exists_linedUp distinct
      exact ⟨l, linedUp.order.perm, linedUp.text_eq, linedUp.popsInOrder⟩
    · intro few
      exact Single.distinctAlong_ofRanking ranking bestBound few operations (List.prefix_refl _)
  · intro settings start made operations s
    have sound := Paired.sound_after_run made operations
    constructor
    · intro distinct
      obtain ⟨l, first⟩ := sound.firstAlone.exists_linedUp distinct
      have linedUp : Paired.LinedUp l s.byFirstOnly := ⟨sound.byFirstOnly, rfl, first⟩
      exact ⟨l, first.order.perm, Paired.text_eq sound first, linedUp.popsInOrder⟩
    · intro few
      exact Paired.distinctAlong_of_made made few operations (List.prefix_refl _)

/-- Two heavy cells behind a light one in the order of pushes. Their text lists them before it, as the
first view does, and so would the first view alone hand them out; in strict turn the light one comes out
between them. -/
theorem listed_as_popped_heavy :
    let light : Cell .binary64 := .ofRegion (.entire 1)
    let heavy : Cell .binary64 := { light with weight := .one }
    let heavy' : Cell .binary64 := { Cell.ofRegion (.entire 2) with weight := .one }
    let operations : List (Operation .binary64) := [.push light, .push heavy, .push heavy']
    let settings : Settings .binary64 := .ofRankings .weight .estimateLower
    let s := stateAfter Paired.apply (.ofSettings settings) operations
    let q := s.views.first
    let single := stateAfter Single.apply (.ofRanking .weight .infinity) operations
    (q.Valid ∧ Heap.Unique q.entries.toList ∧ q.listing = .ok q.sorted ∧
      q.sorted.map (·.handle) = [⟨1⟩, ⟨2⟩, ⟨0⟩] ∧ q.drained q.size = [⟨1⟩, ⟨2⟩, ⟨0⟩]) ∧
    operations.countP Operation.isPush < UInt64.size - 1 ∧
    (ListsPops Single.apply Single.cells single single.heading single.text ∧
      poppedFrom Single.apply single 3 = [heavy, heavy', light]) ∧
    Paired.ofSettings? settings = .ok (.ofSettings settings) ∧
      ListsPops Paired.apply Paired.cells s.byFirstOnly s.heading s.text ∧
      poppedFrom Paired.apply s.byFirstOnly 3 = [heavy, heavy', light] ∧
      poppedFrom Paired.apply s 3 = [heavy, light, heavy'] := by
  intro light heavy heavy' operations settings s q single
  obtain ⟨queues, ofRanking, paired, -, -⟩ := listed_as_popped (f := .binary64)
  have valid : q.Valid := Heap.violation?_eq_none_iff_valid.1 (by decide +kernel)
  have unique : Heap.Unique q.entries.toList := ⟨by decide +kernel, by decide +kernel⟩
  have few : operations.countP Operation.isPush < UInt64.size - 1 := by decide
  have made : Paired.ofSettings? settings = .ok (.ofSettings settings) := rfl
  have hsorted : q.sorted.map (·.handle) = [⟨1⟩, ⟨2⟩, ⟨0⟩] := by decide +kernel
  obtain ⟨hlisting, -, hdrained⟩ := queues q valid unique
  obtain ⟨listsSingle, distinctSingle⟩ := ofRanking .weight .infinity operations
  obtain ⟨listsPaired, distinctPaired⟩ := paired made operations
  refine ⟨⟨valid, unique, hlisting, hsorted, (hdrained q.size le_rfl).trans hsorted⟩, few,
    ⟨listsSingle (distinctSingle few), ?_⟩, made, listsPaired (distinctPaired few), ?_, ?_⟩
  all_goals decide +kernel

end BranchBound
