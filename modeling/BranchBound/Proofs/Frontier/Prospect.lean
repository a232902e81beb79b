/-
What decides which cells a frontier hands out. A prospect has the pending cells and what ranks them,
and nothing of the statistics and of the order in which slots are used again. A contraction takes the
cells above its threshold out of the prospect and ranks the others anew if there were any; a pop takes
the cell at the front of one queue out of all of them. Main statements: to contract twice is to
contract once with both properties (`Prospect.without_without`), the prospect determines what a pop
answers and leaves (`Prospect.Pops.unique`), and it tells what contractions and pops of both kinds of
frontiers do (`Paired.contracting`, `Single.contracting`).
-/
import BranchBound.Proofs.Frontier.Effect

namespace BranchBound

variable {f : Format} {σ : Type}

/-! ## Thresholds -/

namespace Binary

variable {a b : Binary f}

theorem not_nan_lt (c : Binary f) : ¬ nan < c := by
  rw [lt_iff]
  rintro ⟨x, y, hx, _⟩
  cases hx

theorem not_infinity_lt (c : Binary f) : ¬ infinity < c := by
  rw [lt_iff]
  rintro ⟨x, y, hx, hy, hlt⟩
  cases c with
  | nan => cases hy
  | number negative code bounded =>
    cases hx
    cases hy
    cases negative
    · simp only [Bool.false_eq_true, if_false] at hlt
      omega
    · simp only [Bool.false_eq_true, if_false, if_true] at hlt
      omega

/-- Above the smaller of two numbers is what is above one of them. -/
theorem min_lt_iff (ha : a.isNaN = false) (hb : b.isNaN = false) (c : Binary f) :
    a.min b < c ↔ a < c ∨ b < c := by
  obtain ⟨x, hx⟩ := exists_place ha
  obtain ⟨y, hy⟩ := exists_place hb
  cases c with
  | nan => simp [lt_iff, place]
  | number negative code bounded =>
    have hle : b ≤ a ↔ y ≤ x := by simp [le_iff, hx, hy]
    unfold Binary.min
    simp only [ha, Bool.false_or, decide_eq_true_eq, hle]
    split
    · rw [lt_iff_of_place hx rfl, lt_iff_of_place hy rfl]
      omega
    · rw [lt_iff_of_place hx rfl, lt_iff_of_place hy rfl]
      omega

end Binary

/-- A ranking certifies a lower bound for the cell that is above a threshold. -/
def certifiedAbove (rankings : List Ranking) (threshold : Binary f) (cell : Cell f) : Bool :=
  rankings.any fun ranking => decide (threshold < ranking.certifiedLowerBound cell)

theorem certifiedAbove_min {t₁ t₂ : Binary f} (h₁ : t₁.isNaN = false) (h₂ : t₂.isNaN = false)
    (rankings : List Ranking) (cell : Cell f) :
    certifiedAbove rankings (t₁.min t₂) cell =
      (certifiedAbove rankings t₁ cell || certifiedAbove rankings t₂ cell) := by
  rw [Bool.eq_iff_iff]
  simp only [certifiedAbove, List.any_eq_true, decide_eq_true_eq, Bool.or_eq_true,
    Binary.min_lt_iff h₁ h₂, and_or_left, exists_or]

/-- Nothing is above a threshold that is no number or infinity. -/
theorem certifiedAbove_eq_false {threshold : Binary f}
    (h : threshold.isNaN = true ∨ threshold = .infinity) (rankings : List Ranking) (cell : Cell f) :
    certifiedAbove rankings threshold cell = false := by
  refine List.any_eq_false.2 fun ranking _ => ?_
  rw [decide_eq_true_iff]
  rcases h with h | rfl
  · cases threshold with
    | nan => exact Binary.not_nan_lt _
    | number => cases h
  · exact Binary.not_infinity_lt _

/-! ## What decides the pops to come -/

/-- What decides which cells a frontier hands out. -/
structure Prospect (f : Format) where
  pending : List (Pending f)
  /-- The queue of each view with the ranking by which it ranks. -/
  views : List (Ranking × Heap f)
  bestBound : Binary f
  /-- Whose turn it is, where there are two views. -/
  turn : Option Turn

namespace Prospect

variable {g : Prospect f} {out out' : Cell f → Bool}

def rankings (g : Prospect f) : List Ranking := g.views.map (·.1)

/-- The cost recorded for a handle in each view. -/
def recorded (g : Prospect f) (h : CellHandle) : List (Option (Binary f)) :=
  g.views.map (·.2.cost? h)

/-- The number of cells with a property. -/
def count (g : Prospect f) (out : Cell f → Bool) : Nat := g.pending.countP fun p => out p.cell

/-- The prospect without the cells with a property, the others ranked anew if there were any. -/
def without (g : Prospect f) (out : Cell f → Bool) : Prospect f :=
  if g.count out = 0 then g
  else
    let rest := g.pending.filter fun p => !out p.cell
    { g with pending := rest, views := g.views.map fun v => (v.1, .anew v.1 g.bestBound rest) }

/-- Each view ranks the pending cells. -/
def Sound (g : Prospect f) : Prop := ∀ v ∈ g.views, v.2.Ranks v.1 g.bestBound g.pending

theorem Sound.recorded_eq (h : g.Sound) {p : Pending f} (hp : p ∈ g.pending) :
    g.recorded p.handle = g.rankings.map fun ranking => some (ranking.cost p.cell g.bestBound) := by
  unfold recorded rankings
  rw [List.map_map]
  exact List.map_congr_left fun v hv => (h v hv).cost?_eq hp

theorem count_eq_zero_iff : g.count out = 0 ↔ ∀ p ∈ g.pending, out p.cell = false := by
  simp [count, List.countP_eq_zero]

theorem count_congr (h : ∀ p ∈ g.pending, out p.cell = out' p.cell) : g.count out = g.count out' :=
  List.countP_congr fun p hp => by rw [h p hp]

theorem pending_without (g : Prospect f) (out : Cell f → Bool) :
    (g.without out).pending = g.pending.filter fun p => !out p.cell := by
  unfold without
  split
  · rename_i hzero
    refine (List.filter_eq_self.2 fun p hp => ?_).symm
    rw [count_eq_zero_iff.1 hzero p hp]
    rfl
  · rfl

@[simp]
theorem rankings_without (g : Prospect f) (out : Cell f → Bool) :
    (g.without out).rankings = g.rankings := by
  unfold without
  split
  · rfl
  · exact List.map_map

@[simp]
theorem bestBound_without (g : Prospect f) (out : Cell f → Bool) :
    (g.without out).bestBound = g.bestBound := by
  unfold without
  split <;> rfl

theorem without_congr (h : ∀ p ∈ g.pending, out p.cell = out' p.cell) :
    g.without out = g.without out' := by
  unfold without
  rw [count_congr h, List.filter_congr fun p hp => congrArg (!·) (h p hp)]

theorem without_of_count_eq_zero (h : g.count out = 0) : g.without out = g := if_pos h

/-- What is left has lost the cells with one property and then those with the other. -/
theorem count_or (g : Prospect f) (out out' : Cell f → Bool) :
    g.count (fun cell => out cell || out' cell) = g.count out + (g.without out).count out' := by
  unfold count
  rw [pending_without]
  induction g.pending with
  | nil => rfl
  | cons p rest ih =>
    cases hout : out p.cell
    · simp only [List.countP_cons, List.filter_cons, hout, ih, Bool.false_or, Bool.not_false,
        Bool.false_eq_true, if_true, if_false]
      omega
    · simp only [List.countP_cons, List.filter_cons, hout, ih, Bool.true_or, Bool.not_true,
        Bool.false_eq_true, if_true, if_false]
      omega

/-- Taking cells out twice ranks the others by what is left in the end, if it ranks anew at all. -/
theorem without_without (g : Prospect f) (out out' : Cell f → Bool) :
    (g.without out).without out' = g.without fun cell => out cell || out' cell := by
  by_cases hfirst : g.count out = 0
  · rw [without_of_count_eq_zero hfirst]
    refine without_congr fun p hp => ?_
    rw [count_eq_zero_iff.1 hfirst p hp, Bool.false_or]
  · by_cases hsecond : (g.without out).count out' = 0
    · rw [without_of_count_eq_zero hsecond]
      refine without_congr fun p hp => ?_
      -- of a cell that is left after the first time nothing more is asked
      cases hout : out p.cell
      · have hleft : p ∈ (g.without out).pending := by
          rw [pending_without, List.mem_filter, hout]
          exact ⟨hp, rfl⟩
        rw [count_eq_zero_iff.1 hsecond p hleft, Bool.false_or]
      · rfl
    · have hboth : g.count (fun cell => out cell || out' cell) ≠ 0 := by
        rw [count_or]
        omega
      unfold without at hsecond ⊢
      rw [if_neg hfirst] at hsecond ⊢
      rw [if_neg hsecond, if_neg hboth]
      simp only [List.filter_filter, List.map_map, Bool.not_or, Bool.and_comm, Function.comp_def]

/-- A prospect that has lost its cells with a property, and ranks the others anew if there were any,
is the one without them. -/
theorem eq_without {g' : Prospect f} (pending : g'.pending = g.pending.filter fun p => !out p.cell)
    (views : g'.views = if g.count out = 0 then g.views
      else g.views.map fun v => (v.1, .anew v.1 g.bestBound g'.pending))
    (bestBound : g'.bestBound = g.bestBound) (turn : g'.turn = g.turn) : g' = g.without out := by
  obtain ⟨pending', views', bestBound', turn'⟩ := g'
  simp only at pending views bestBound turn
  subst pending views bestBound turn
  unfold without
  split
  · rename_i hzero
    have hkept := pending_without g out
    rw [without_of_count_eq_zero hzero] at hkept
    rw [← hkept]
  · rfl

/-- The queue that supplies the next pop: the second one if it is its turn, else the first one. -/
def supplying? (g : Prospect f) : Option (Heap f) :=
  match g.turn.map Turn.current with
  | some .second => g.views[1]?.map (·.2)
  | _ => g.views[0]?.map (·.2)

/-- What a pop answers and leaves: the cell at the front of the queue whose turn it is comes out of
all queues, and the turn passes on. -/
inductive Pops (g : Prospect f) : Except Failure (Answer f) → Prospect f → Prop
  | empty (none : g.pending = []) : Pops g (.error (.error .empty)) g
  | next {queue : Heap f} {e : HeapEntry f} {p : Pending f} {rest : List (Pending f)}
      (supply : g.supplying? = some queue) (front : queue.peek? = some e) (mem : p ∈ g.pending)
      (handle : p.handle = e.handle)
      (others : rest = g.pending.filter fun p' => p'.handle ≠ p.handle) :
      Pops g (.ok (.cell p.cell))
        { g with
          pending := rest
          views := g.views.map fun v => (v.1, v.2.erase p.handle)
          turn := g.turn.map Turn.advance }

/-- A prospect determines what a pop answers and leaves. -/
theorem Pops.unique {answer answer' : Except Failure (Answer f)} {g₁ g₂ : Prospect f}
    (distinct : (g.pending.map (·.handle)).Nodup) (h : Pops g answer g₁) (h' : Pops g answer' g₂) :
    answer = answer' ∧ g₁ = g₂ := by
  cases h with
  | empty none =>
    cases h' with
    | empty => exact ⟨rfl, rfl⟩
    | next supply front mem handle others => exact absurd mem (none ▸ List.not_mem_nil)
  | next supply front mem handle others =>
    cases h' with
    | empty none => exact absurd mem (none ▸ List.not_mem_nil)
    | next supply' front' mem' handle' others' =>
      cases supply.symm.trans supply'
      cases front.symm.trans front'
      obtain rfl := List.inj_on_of_nodup_map distinct mem mem' (handle.trans handle'.symm)
      rw [others, others']
      exact ⟨rfl, rfl⟩

end Prospect

/-! ## The two kinds -/

/-- A kind of frontier of which the prospect tells what contractions and pops do. -/
structure ContractingKind (σ : Type) (f : Format) extends Kind σ f where
  prospect : σ → Prospect f
  /-- The state with other statistics. -/
  withStatistics : σ → Statistics → σ
  pending_prospect : ∀ s, (prospect s).pending = (cells s).pending
  ranks : ∀ {s}, Sound s → (prospect s).Sound
  contract : ∀ {s}, Sound s → ∀ threshold,
    let out := certifiedAbove (prospect s).rankings threshold
    (apply s (.contract threshold)).answer = .ok (.count ((prospect s).count out)) ∧
      prospect (apply s (.contract threshold)).state = (prospect s).without out
  /-- A contraction that takes nothing out changes nothing but the statistics. -/
  contract_idle : ∀ {s} threshold,
    (prospect s).count (certifiedAbove (prospect s).rankings threshold) = 0 →
      apply s (.contract threshold) =
        .done (withStatistics s ((outline s).statistics.countContraction 0)) (.count 0) []
  pops : ∀ {s}, Sound s →
    (prospect s).Pops (apply s .pop).answer (prospect (apply s .pop).state)

/-- Pops of sound states with one prospect answer alike and leave one prospect. -/
theorem ContractingKind.pop_congr (k : ContractingKind σ f) {s t : σ} (hs : k.Sound s)
    (ht : k.Sound t) (h : k.prospect s = k.prospect t) :
    (k.apply s .pop).answer = (k.apply t .pop).answer ∧
      k.prospect (k.apply s .pop).state = k.prospect (k.apply t .pop).state := by
  refine Prospect.Pops.unique ?_ (k.pops hs) (h ▸ k.pops ht)
  rw [k.pending_prospect]
  exact (k.cells s).handles_nodup

namespace Paired

variable {s : Paired f}

def prospect (s : Paired f) : Prospect f where
  pending := s.cells.pending
  views := [(s.rankings.first, s.views.first), (s.rankings.second, s.views.second)]
  bestBound := s.bestBound
  turn := some s.turn

theorem discards_eq (s : Paired f) (threshold : Binary f) :
    s.discards threshold = certifiedAbove s.prospect.rankings threshold := by
  funext cell
  simp [discards, certifiedAbove, Prospect.rankings, prospect, Ranking.dominates]

theorem count_prospect (s : Paired f) (threshold : Binary f) :
    s.prospect.count (certifiedAbove s.prospect.rankings threshold) = s.discardCount threshold := by
  rw [← discards_eq]
  rfl

theorem supplying?_prospect (s : Paired f) :
    s.prospect.supplying? = some (s.views.get s.currentView) := by
  unfold Prospect.supplying? prospect currentView
  simp only [Option.map_some]
  cases s.turn.current <;> rfl

theorem Sound.contract_prospect (h : s.Sound) (threshold : Binary f) :
    (s.contract threshold).state.prospect =
      s.prospect.without (certifiedAbove s.prospect.rankings threshold) := by
  rw [contract_eq, ← discards_eq]
  refine Prospect.eq_without (kept_spec h.store threshold).2.1 ?_ rfl rfl
  -- both views are ranked anew or none
  show _ = if s.discardCount threshold = 0 then _ else _
  simp only [Step.done, prospect]
  split <;> rfl

theorem Sound.pops (h : s.Sound) :
    s.prospect.Pops (s.apply .pop).answer (s.apply .pop).state.prospect := by
  by_cases hnil : s.cells.pending = []
  · rw [Paired.apply, (next_of_nil h hnil).1]
    exact .empty hnil
  · obtain ⟨e, he⟩ := (h.ranks s.currentView).exists_front hnil
    obtain ⟨p, hp, ⟨hmem, _⟩, _, hpop⟩ := pop_of_peek? h he
    rw [Paired.apply, hpop]
    exact .next s.supplying?_prospect he hmem hp (CellStore.erase_spec h.store p.handle).2.1

def contracting : ContractingKind (Paired f) f where
  toKind := Paired.kind
  prospect := prospect
  withStatistics s statistics := { s with statistics := statistics }
  pending_prospect _ := rfl
  ranks h := by
    simp only [Prospect.Sound, prospect, List.forall_mem_cons, List.not_mem_nil, false_implies,
      implies_true, and_true]
    exact ⟨h.ranks .first, h.ranks .second⟩
  contract {s} h threshold := by
    refine ⟨?_, h.contract_prospect threshold⟩
    show ((s.contract threshold).map Answer.count).answer = _
    rw [count_prospect, contract_eq]
    rfl
  contract_idle {s} threshold hzero := by
    rw [count_prospect] at hzero
    show (s.contract threshold).map Answer.count = _
    simp only [contract_eq, hzero, kept_of_none hzero, dominated_of_none hzero, if_true]
    rfl
  pops h := h.pops

end Paired

namespace Single

variable {s : Single f}

def prospect (s : Single f) : Prospect f where
  pending := s.cells.pending
  views := [(s.ranking, s.queue)]
  bestBound := s.bestBound
  turn := none

theorem dominates_eq (s : Single f) (threshold : Binary f) :
    (s.ranking.dominates · threshold) = certifiedAbove s.prospect.rankings threshold := by
  funext cell
  simp [certifiedAbove, Prospect.rankings, prospect, Ranking.dominates]

theorem count_prospect (s : Single f) (threshold : Binary f) :
    s.prospect.count (certifiedAbove s.prospect.rankings threshold) = s.discardCount threshold := by
  rw [← dominates_eq]
  rfl

theorem Sound.contract_prospect (h : s.Sound) (threshold : Binary f) :
    (s.contract threshold).state.prospect =
      s.prospect.without (certifiedAbove s.prospect.rankings threshold) := by
  rw [contract_eq, ← dominates_eq]
  refine Prospect.eq_without (kept_spec h.store threshold).2.1 ?_ rfl rfl
  show _ = if s.discardCount threshold = 0 then _ else _
  simp only [Step.done, prospect]
  split <;> rfl

theorem Sound.pops (h : s.Sound) :
    s.prospect.Pops (s.apply .pop).answer (s.apply .pop).state.prospect := by
  by_cases hnil : s.cells.pending = []
  · rw [Single.apply, (next_of_nil h hnil).1]
    exact .empty hnil
  · obtain ⟨e, he⟩ := h.ranks.exists_front hnil
    obtain ⟨p, hp, ⟨hmem, _⟩, _, _, hpop⟩ := pop_of_peek? h he
    rw [Single.apply, hpop]
    exact .next rfl he hmem hp (CellStore.erase_spec h.store p.handle).2.1

def contracting : ContractingKind (Single f) f where
  toKind := Single.kind
  prospect := prospect
  withStatistics s statistics := { s with statistics := statistics }
  pending_prospect _ := rfl
  ranks h := by
    simp only [Prospect.Sound, prospect, List.mem_singleton, forall_eq]
    exact h.ranks
  contract {s} h threshold := by
    refine ⟨?_, h.contract_prospect threshold⟩
    show ((s.contract threshold).map Answer.count).answer = _
    rw [count_prospect, contract_eq]
    rfl
  contract_idle {s} threshold hzero := by
    rw [count_prospect] at hzero
    show (s.contract threshold).map Answer.count = _
    simp only [contract_eq, hzero, kept_of_none hzero, dominated_of_none hzero, if_true]
    rfl
  pops h := h.pops

end Single

end BranchBound
