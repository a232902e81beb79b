/-
Monitors made of monitors. A leaf is known by its path, which says part by part where to go, and the
order of the paths is that of the leaves from left to right (`mem_posts_iff`, `pairwise_paths`). What
a notice does on its way is told by deliveries, one for each leaf that it reaches, also for a leaf
that keeps silent. A delivery says what the leaf gets and what it puts out; the rest forgotten,
deliveries are what a monitor puts out (`observeEach_eq`). Tables go by a clock here, and each of them
may find any reading in any round. Main statement (`Monitor.transparent`): along any rounds each leaf
gets each notice once, from left to right in each round, and all is as if the leaves were the parts
of one monitor.
-/
import BranchBound.Proofs.Monitor.Progress

namespace BranchBound

variable {f : Format}

/-! ## Leaves and their paths -/

/-- A leaf of a monitor with the path to it: which part to go into, which part of that, and so on. -/
structure Post (f : Format) where
  path : List Nat
  watcher : Watcher f

/-- The leaf with its path replaced. -/
def Post.along (g : List Nat → List Nat) (p : Post f) : Post f := { p with path := g p.path }

namespace Monitor

/-- What all leaves have, and a monitor has if its parts have it, every monitor has. -/
@[elab_as_elim]
theorem induction {motive : Monitor f → Prop} (leaf : ∀ watcher, motive (leaf watcher))
    (composite : ∀ parts, (∀ part ∈ parts, motive part) → motive (composite parts)) :
    ∀ m, motive m
  | .leaf watcher => leaf watcher
  | .composite parts => composite parts fun part _ => induction leaf composite part

/-- The leaf at the end of a path. -/
def leafAt? (m : Monitor f) : List Nat → Option (Watcher f)
  | [] =>
    match m with
    | leaf watcher => some watcher
    | composite _ => none
  | i :: path => m.parts[i]?.bind fun part => part.leafAt? path

mutual

/-- The leaves of a monitor from left to right. -/
def posts : Monitor f → List (Post f)
  | leaf watcher => [⟨[], watcher⟩]
  | composite parts => postsFrom 0 parts

/-- The leaves of parts that are numbered from `i` on. -/
def postsFrom (i : Nat) : List (Monitor f) → List (Post f)
  | [] => []
  | part :: rest => part.posts.map (·.along (i :: ·)) ++ postsFrom (i + 1) rest

end

def paths (m : Monitor f) : List (List Nat) := m.posts.map (·.path)

def watchers (m : Monitor f) : List (Watcher f) := m.posts.map (·.watcher)

theorem postsFrom_eq (i : Nat) (parts : List (Monitor f)) :
    postsFrom i parts = (parts.zipIdx i).flatMap fun x => x.1.posts.map (·.along (x.2 :: ·)) := by
  induction parts generalizing i with
  | nil => rfl
  | cons part rest ih => rw [postsFrom, ih, List.zipIdx_cons, List.flatMap_cons]

/-- The listed leaves are those that paths lead to. -/
theorem mem_posts_iff (m : Monitor f) (path : List Nat) (watcher : Watcher f) :
    ⟨path, watcher⟩ ∈ m.posts ↔ m.leafAt? path = some watcher := by
  induction m using induction generalizing path with
  | leaf w => cases path <;> simp [posts, leafAt?, parts, eq_comm]
  | composite ms ih =>
    simp only [posts, postsFrom_eq, List.mem_flatMap, List.mem_map, Prod.exists,
      List.mk_mem_zipIdx_iff_getElem?]
    constructor
    · rintro ⟨part, i, hpart, ⟨path', w⟩, hpost, heq⟩
      obtain ⟨rfl, rfl⟩ := Post.mk.inj heq
      have hleaf := (ih part (List.mem_of_getElem? hpart) path').1 hpost
      simp [leafAt?, parts, hpart, hleaf]
    · intro hleaf
      rcases path with _ | ⟨i, path⟩
      · simp [leafAt?] at hleaf
      · obtain ⟨part, hpart, hleaf⟩ := Option.bind_eq_some_iff.1 hleaf
        exact ⟨part, i, hpart, ⟨path, watcher⟩, (ih part (List.mem_of_getElem? hpart) path).2 hleaf,
          rfl⟩

theorem mem_paths_iff (m : Monitor f) (path : List Nat) :
    path ∈ m.paths ↔ (m.leafAt? path).isSome := by
  rw [Option.isSome_iff_exists]
  simp only [← mem_posts_iff]
  constructor
  · intro h
    obtain ⟨p, hp, rfl⟩ := List.mem_map.1 h
    exact ⟨p.watcher, hp⟩
  · rintro ⟨w, hw⟩
    exact List.mem_map_of_mem hw

/-- The leaves are listed in the order of their paths. -/
theorem pairwise_paths (m : Monitor f) : m.paths.Pairwise (· < ·) := by
  rw [paths, List.pairwise_map]
  induction m using induction with
  | leaf w => exact List.pairwise_singleton _ _
  | composite ms ih =>
    rw [posts, postsFrom_eq, List.pairwise_flatMap]
    constructor
    · rintro ⟨part, i⟩ hpart
      rw [List.pairwise_map]
      refine (ih part (List.mem_of_getElem? (List.mk_mem_zipIdx_iff_getElem?.1 hpart))).imp ?_
      intro p q hlt
      exact List.cons_lt_cons_self.2 hlt
    · -- paths into different parts differ in the first step
      have hsteps : (ms.zipIdx.map Prod.snd).Pairwise (· < ·) := by
        rw [List.zipIdx_map_snd]
        exact List.pairwise_lt_range' 1
      refine (List.pairwise_map.1 hsteps).imp ?_
      intro x y hlt p hp q hq
      obtain ⟨p, -, rfl⟩ := List.mem_map.1 hp
      obtain ⟨q, -, rfl⟩ := List.mem_map.1 hq
      exact List.cons_lt_cons_iff.2 (.inl hlt)

theorem nodup_paths (m : Monitor f) : m.paths.Nodup :=
  m.pairwise_paths.imp fun hlt heq => absurd (heq ▸ hlt) (List.lt_irrefl _)

end Monitor

/-! ## Deliveries -/

/-- The watcher after a notice that it gets so many milliseconds after its last line, and what it
puts out. -/
def Watcher.observeAfter (w : Watcher f) (elapsed : Nat) (notice : Notice f) :
    Watcher f × List (Output f) :=
  match w with
  | table t =>
    let next := t.observeAfter elapsed notice
    (table next.1, next.2.map .written)
  | _ => w.observe notice

/-- No interval is so short that it passes in no time, if it has to pass at all. -/
theorem Watcher.observeAfter_zero (w : Watcher f) (notice : Notice f) :
    w.observeAfter 0 notice = w.observe notice := by
  cases w with
  | table t =>
    have hreached : t.interval = 0 ∨ 0 < t.interval := Nat.eq_zero_or_pos _
    simp [observeAfter, observe, ProgressTable.observeAfter_eq hreached]
  | _ => rfl

/-- A notice that all leaves get, and the milliseconds since its last line for the leaf at the end
of each path. -/
structure Round (f : Format) where
  notice : Notice f
  elapsed : List Nat → Nat

/-- The round in which no time has passed for any leaf. -/
def Round.still (notice : Notice f) : Round f := ⟨notice, fun _ => 0⟩

/-- The round for leaves whose paths have yet to be replaced. -/
def Round.along (g : List Nat → List Nat) (r : Round f) : Round f :=
  { r with elapsed := fun path => r.elapsed (g path) }

/-- What a leaf gets and what it then puts out. -/
structure Delivery (f : Format) where
  path : List Nat
  notice : Notice f
  output : List (Output f)

/-- The delivery with its path replaced. -/
def Delivery.along (g : List Nat → List Nat) (d : Delivery f) : Delivery f :=
  { d with path := g d.path }

/-- A leaf in a round: what becomes of it, and the delivery to it. -/
def Post.serve (p : Post f) (r : Round f) : Post f × Delivery f :=
  let next := p.watcher.observeAfter (r.elapsed p.path) r.notice
  ({ p with watcher := next.1 }, ⟨p.path, r.notice, next.2⟩)

theorem Post.serve_along (g : List Nat → List Nat) (p : Post f) (r : Round f) :
    (p.along g).serve r =
      ((p.serve (r.along g)).1.along g, (p.serve (r.along g)).2.along g) := rfl

namespace Monitor

mutual

/-- A monitor in a round, as `observe` passes the notice on: what becomes of it, and the deliveries
to its leaves. -/
def deliver (r : Round f) : Monitor f → Monitor f × List (Delivery f)
  | leaf watcher =>
    let next := watcher.observeAfter (r.elapsed []) r.notice
    (leaf next.1, [⟨[], r.notice, next.2⟩])
  | composite parts =>
    let next := deliverFrom r 0 parts
    (composite next.1, next.2)

/-- Parts that are numbered from `i` on in a round: what becomes of them, and the deliveries to their
leaves. -/
def deliverFrom (r : Round f) (i : Nat) : List (Monitor f) → List (Monitor f) × List (Delivery f)
  | [] => ([], [])
  | part :: rest =>
    let first := deliver (r.along (i :: ·)) part
    let others := deliverFrom r (i + 1) rest
    (first.1 :: others.1, first.2.map (·.along (i :: ·)) ++ others.2)

end

/-- A monitor in some rounds, and the deliveries to its leaves. -/
def deliverEach (m : Monitor f) : List (Round f) → Monitor f × List (Delivery f)
  | [] => (m, [])
  | r :: rest =>
    let next := m.deliver r
    let last := next.1.deliverEach rest
    (last.1, next.2 ++ last.2)

/-- What a monitor does with a notice is what its leaves do to whom the notice is delivered. -/
theorem observe_eq (m : Monitor f) (notice : Notice f) :
    let told := m.deliver (.still notice)
    m.observe notice = (told.1, told.2.flatMap (·.output)) := by
  induction m using induction with
  | leaf w => simp [observe, deliver, Round.still, Watcher.observeAfter_zero]
  | composite ms ih =>
    have hparts (i : Nat) : observeAll notice ms =
        ((deliverFrom (.still notice) i ms).1,
          (deliverFrom (.still notice) i ms).2.flatMap (·.output)) := by
      induction ms generalizing i with
      | nil => rfl
      | cons part rest ihrest =>
        have hfirst : part.observe notice = _ := ih part List.mem_cons_self
        have hrest := ihrest (fun part hpart => ih part (List.mem_cons_of_mem _ hpart)) (i + 1)
        -- that no time has passed does not depend on the path
        have hstill : (Round.still notice).along (i :: ·) = Round.still notice := rfl
        simp [observeAll, deliverFrom, hfirst, hrest, hstill, List.flatMap_map, Delivery.along]
    simp only [observe, deliver, hparts 0]

theorem observeEach_eq (m : Monitor f) (notices : List (Notice f)) :
    let told := m.deliverEach (notices.map .still)
    m.observeEach notices = (told.1, told.2.flatMap (·.output)) := by
  induction notices generalizing m with
  | nil => rfl
  | cons notice rest ih => simp [observeEach, deliverEach, observe_eq, ih]

/-- In a round all leaves are served, one after the other. -/
theorem deliver_eq (m : Monitor f) (r : Round f) :
    (m.deliver r).1.posts = m.posts.map (fun p => (p.serve r).1) ∧
      (m.deliver r).2 = m.posts.map (fun p => (p.serve r).2) := by
  induction m using induction generalizing r with
  | leaf w => exact ⟨rfl, rfl⟩
  | composite ms ih =>
    have hparts (i : Nat) :
        postsFrom i (deliverFrom r i ms).1 = (postsFrom i ms).map (fun p => (p.serve r).1) ∧
          (deliverFrom r i ms).2 = (postsFrom i ms).map (fun p => (p.serve r).2) := by
      induction ms generalizing i with
      | nil => exact ⟨rfl, rfl⟩
      | cons part rest ihrest =>
        have hfirst := ih part List.mem_cons_self (r.along (i :: ·))
        have hrest := ihrest (fun part hpart => ih part (List.mem_cons_of_mem _ hpart)) (i + 1)
        simp [deliverFrom, postsFrom, hfirst, hrest, Function.comp_def, Post.serve_along]
    exact hparts 0

/-! ## Rounds -/

/-- Notices change no path. -/
theorem paths_deliver (m : Monitor f) (r : Round f) : (m.deliver r).1.paths = m.paths := by
  rw [paths, (m.deliver_eq r).1, List.map_map]
  rfl

/-- Each round serves the leaves from left to right. -/
theorem deliverEach_served (m : Monitor f) (rounds : List (Round f)) :
    (m.deliverEach rounds).2.map (fun d => (d.path, d.notice)) =
      rounds.flatMap fun r => m.paths.map fun path => (path, r.notice) := by
  induction rounds generalizing m with
  | nil => rfl
  | cons r rest ih =>
    have hround : (m.deliver r).2.map (fun d => (d.path, d.notice)) =
        m.paths.map fun path => (path, r.notice) := by
      rw [(m.deliver_eq r).2, paths, List.map_map, List.map_map]
      rfl
    simp [deliverEach, hround, ih, paths_deliver]

/-- A watcher that keeps silent is served too, a monitor without parts is not. The table writes its
header and a flush. -/
example :
    let m : Monitor f := composite [leaf (.recorder "first"),
      composite [composite [], leaf .silent, leaf (.table {})], leaf (.recorder "last")]
    (m.deliver (.still ⟨.flush 2, {}⟩)).2.map (fun d => (d.path, d.output.length)) =
      [([0], 1), ([1, 1], 0), ([1, 2], 4), ([2], 1)] :=
  rfl

/-- A leaf hears the notices of all rounds, each of them once. -/
theorem deliverEach_heard (m : Monitor f) (rounds : List (Round f)) (path : List Nat) :
    ((m.deliverEach rounds).2.filter (·.path == path)).map (·.notice) =
      if (m.leafAt? path).isSome then rounds.map (·.notice) else [] := by
  have hpath : m.paths.filter (· == path) = if (m.leafAt? path).isSome then [path] else [] := by
    simp only [List.filter_beq, m.nodup_paths.count, mem_paths_iff]
    split <;> rfl
  have hround (r : Round f) : ((m.paths.map fun p => (p, r.notice)).filter (·.1 == path)).map
      Prod.snd = if (m.leafAt? path).isSome then [r.notice] else [] := by
    rw [List.filter_map, Function.comp_def, hpath]
    split <;> rfl
  have hheard : ((m.deliverEach rounds).2.filter (·.path == path)).map (·.notice) =
      (((m.deliverEach rounds).2.map fun d => (d.path, d.notice)).filter (·.1 == path)).map
        Prod.snd := by
    rw [List.filter_map, List.map_map]
    rfl
  rw [hheard, deliverEach_served, List.filter_flatMap, List.map_flatMap]
  simp only [hround]
  split <;> simp [List.map_eq_flatMap]

/-- A monitor whose leaves are those of another one behind other paths gets on in the same way. -/
theorem deliver_along {m n : Monitor f} {g : List Nat → List Nat}
    (same : n.posts = m.posts.map (·.along g)) (r : Round f) :
    (n.deliver r).1.posts = (m.deliver (r.along g)).1.posts.map (·.along g) ∧
      (n.deliver r).2 = (m.deliver (r.along g)).2.map (·.along g) := by
  simp [deliver_eq, same, Function.comp_def, Post.serve_along]

theorem deliverEach_along {m n : Monitor f} {g : List Nat → List Nat}
    (same : n.posts = m.posts.map (·.along g)) (rounds : List (Round f)) :
    let told := m.deliverEach (rounds.map (·.along g))
    (n.deliverEach rounds).1.posts = told.1.posts.map (·.along g) ∧
      (n.deliverEach rounds).2 = told.2.map (·.along g) := by
  induction rounds generalizing m n with
  | nil => exact ⟨same, rfl⟩
  | cons r rest ih =>
    obtain ⟨hposts, hdeliveries⟩ := deliver_along same r
    have hrest := ih hposts
    simp [deliverEach, hdeliveries, hrest]

/-! ## One monitor for all leaves -/

/-- The monitor that has the leaves of another one for parts. -/
def flat (m : Monitor f) : Monitor f := composite (m.watchers.map leaf)

/-- The path in `flat` to the leaf at the end of a path. -/
def flatPath (m : Monitor f) (path : List Nat) : List Nat := [m.paths.idxOf path]

theorem posts_flat (m : Monitor f) : m.flat.posts = m.posts.map (·.along m.flatPath) := by
  have hflat (i : Nat) (ws : List (Watcher f)) :
      postsFrom i (ws.map leaf) = (ws.zipIdx i).map fun x => ⟨[x.2], x.1⟩ := by
    induction ws generalizing i with
    | nil => rfl
    | cons w rest ih => simp [postsFrom, posts, Post.along, ih]
  rw [flat, posts, hflat]
  refine List.ext_getElem (by simp [watchers]) fun i hleft hright => ?_
  have hi : i < m.posts.length := by simpa using hright
  have hidx : m.paths.idxOf m.posts[i].path = i := by
    have hpath := m.nodup_paths.idxOf_getElem i (by simpa [paths] using hi)
    simpa [paths] using hpath
  simp [watchers, Post.along, flatPath, hidx]

theorem watchers_eq_of_along {m n : Monitor f} {g : List Nat → List Nat}
    (same : n.posts = m.posts.map (·.along g)) : n.watchers = m.watchers := by
  simp [watchers, same, Post.along]

/-- The parts of `flat` put out what the leaves put out, and end up alike. -/
theorem observeEach_flat (m : Monitor f) (notices : List (Notice f)) :
    (m.flat.observeEach notices).2 = (m.observeEach notices).2 ∧
      (m.flat.observeEach notices).1.watchers = (m.observeEach notices).1.watchers := by
  obtain ⟨hposts, hdeliveries⟩ := deliverEach_along m.posts_flat (notices.map .still)
  have hstill : (notices.map Round.still).map (·.along m.flatPath) = notices.map Round.still := by
    rw [List.map_map]
    rfl
  rw [hstill] at hposts hdeliveries
  simp only [observeEach_eq, watchers_eq_of_along hposts, hdeliveries, List.flatMap_map,
    Delivery.along, and_self]

/-- The leaves of a monitor are served as if they were the parts of one monitor. -/
structure Transparent (m : Monitor f) : Prop where
  /-- The leaves are those to which a path leads. -/
  posts : ∀ path watcher, ⟨path, watcher⟩ ∈ m.posts ↔ m.leafAt? path = some watcher
  /-- They are listed from left to right. -/
  order : m.paths.Pairwise (· < ·)
  /-- What the monitor puts out is what its leaves put out to which something is delivered. -/
  observed : ∀ notices,
    let told := m.deliverEach (notices.map .still)
    m.observeEach notices = (told.1, told.2.flatMap (·.output))
  /-- In each round all leaves get the notice, from left to right. -/
  served : ∀ rounds, (m.deliverEach rounds).2.map (fun d => (d.path, d.notice)) =
    rounds.flatMap fun r => m.paths.map fun path => (path, r.notice)
  /-- Each leaf gets each notice once. -/
  heard : ∀ rounds path, ((m.deliverEach rounds).2.filter (·.path == path)).map (·.notice) =
    if (m.leafAt? path).isSome then rounds.map (·.notice) else []
  /-- The same goes to the parts of `flat`, which put out the same and end up alike, if the clocks
  say the same to them. -/
  flat : ∀ rounds,
    let told := m.deliverEach (rounds.map (·.along m.flatPath))
    (m.flat.deliverEach rounds).2 = told.2.map (·.along m.flatPath) ∧
      (m.flat.deliverEach rounds).1.watchers = told.1.watchers
  /-- So `flat` puts out the same, and its parts end up as the leaves do. -/
  output : ∀ notices, (m.flat.observeEach notices).2 = (m.observeEach notices).2 ∧
    (m.flat.observeEach notices).1.watchers = (m.observeEach notices).1.watchers

theorem transparent (m : Monitor f) : m.Transparent where
  posts := m.mem_posts_iff
  order := m.pairwise_paths
  observed := m.observeEach_eq
  served := m.deliverEach_served
  heard := m.deliverEach_heard
  flat rounds := by
    obtain ⟨hposts, hdeliveries⟩ := deliverEach_along m.posts_flat rounds
    exact ⟨hdeliveries, watchers_eq_of_along hposts⟩
  output := m.observeEach_flat

end Monitor

end BranchBound
