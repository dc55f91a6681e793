import Mathlib.Order.Bounds.Basic
import Terrain.Proofs.Links

/-!
# Schedules follow reads

The depth of a dispatch is the length of the longest chain of reads from the main dispatch to it.
So a schedule, which groups the dispatches by depth, has a stage for every number down to zero, ends
with the main dispatch alone, and runs what writes a buffer in an earlier stage than what reads it.

* `stages_flatMap`, `stages_falls`   stages are the list they were made from, in falling order;
* `ReadChain`                        chains of reads from the main dispatch;
* `Scheduled`                        what a schedule is good for;
* `compile_scheduled`                the schedule of every program is.
-/

namespace Terrain

open List

variable {d e : DispatchId}

/-! ## stages -/

theorem stages_flatMap (ds : List Dispatch) : (stages ds).flatMap Stage.dispatches = ds := by
  induction ds with
  | nil => rfl
  | cons d ds ih =>
    unfold stages
    split
    case h_1 none =>
      rw [none] at ih
      simp [← ih]
    case h_2 s more made =>
      rw [made] at ih
      split <;> simp [← ih]

theorem stages_level (ds : List Dispatch) :
    ∀ s ∈ stages ds, s.dispatches ≠ [] ∧ ∀ d ∈ s.dispatches, d.depth = s.depth := by
  induction ds with
  | nil => simp [stages]
  | cons d ds ih =>
    unfold stages
    split
    case h_1 none => simp
    case h_2 s more made =>
      rw [made] at ih
      split
      case isTrue same =>
        refine forall_mem_cons.2 ⟨⟨by simp, ?_⟩, (forall_mem_cons.1 ih).2⟩
        exact forall_mem_cons.2 ⟨same.symm, (ih s (.head _)).2⟩
      case isFalse => exact forall_mem_cons.2 ⟨by simp, ih⟩

theorem mem_stages_iff {ds : List Dispatch} {d : Dispatch} :
    (∃ s ∈ stages ds, d ∈ s.dispatches) ↔ d ∈ ds := by
  rw [← mem_flatMap, stages_flatMap]

theorem stages_falls {ds : List Dispatch} (h : ds.Pairwise fun a b => b.depth ≤ a.depth) :
    (stages ds).Pairwise fun s t => t.depth < s.depth := by
  induction ds with
  | nil => exact .nil
  | cons d ds ih =>
    obtain ⟨first, rest⟩ := pairwise_cons.1 h
    have falls := ih rest
    unfold stages
    split
    case h_1 none => simp
    case h_2 s more made =>
      rw [made] at falls
      obtain ⟨below, others⟩ := pairwise_cons.1 falls
      split
      case isTrue same => exact pairwise_cons.2 ⟨below, others⟩
      case isFalse other =>
        have member : s ∈ stages ds := made ▸ .head _
        obtain ⟨some, level⟩ := stages_level ds s member
        obtain ⟨e, inside⟩ := exists_mem_of_ne_nil _ some
        have le := first e (mem_stages_iff.1 ⟨s, member, inside⟩)
        have top : s.depth < d.depth := by
          rw [level e inside] at le
          omega
        refine pairwise_cons.2 ⟨forall_mem_cons.2 ⟨top, ?_⟩, falls⟩
        intro t later
        exact lt_trans (below t later) top

theorem stages_filter {ss : List Stage} (falls : ss.Pairwise fun s t => t.depth < s.depth)
    (level : ∀ s ∈ ss, ∀ d ∈ s.dispatches, d.depth = s.depth) {s : Stage} (member : s ∈ ss) :
    s.dispatches = (ss.flatMap Stage.dispatches).filter fun d => d.depth = s.depth := by
  induction ss with
  | nil => cases member
  | cons t ss ih =>
    obtain ⟨below, rest⟩ := pairwise_cons.1 falls
    have other {u : Stage} (there : u ∈ t :: ss) (apart : u.depth ≠ s.depth) :
        u.dispatches.filter (fun d => d.depth = s.depth) = [] := by
      refine filter_eq_nil_iff.2 fun d inside => ?_
      rw [level u there d inside]
      simpa using apart
    rw [flatMap_cons, filter_append]
    rcases mem_cons.1 member with rfl | member
    · have own : s.dispatches.filter (fun d => d.depth = s.depth) = s.dispatches :=
        filter_eq_self.2 fun d inside => by simpa using level s (.head _) d inside
      have none : (ss.flatMap Stage.dispatches).filter (fun d => d.depth = s.depth) = [] := by
        rw [filter_flatMap, flatMap_eq_nil_iff]
        exact fun u later => other (.tail _ later) (ne_of_lt (below u later))
      rw [own, none, append_nil]
    · rw [other (.head _) (ne_of_gt (below s member)), nil_append]
      exact ih rest (fun u later => level u (.tail _ later)) member

theorem eq_countdown {ks : List Int} (falls : ks.Pairwise fun a b => b < a)
    (nonneg : ∀ k ∈ ks, 0 ≤ k) (closed : ∀ k ∈ ks, 0 < k → k - 1 ∈ ks) :
    ks = (List.range ks.length).reverse.map Int.ofNat := by
  induction ks with
  | nil => rfl
  | cons x ks ih =>
    obtain ⟨below, rest⟩ := pairwise_cons.1 falls
    have tail := ih rest (fun k member => nonneg k (.tail _ member)) (by
      intro k member positive
      have next := closed k (.tail _ member) positive
      have := below k member
      exact (mem_cons.1 next).resolve_left (by omega))
    have mem_iff (k : Int) : k ∈ ks ↔ 0 ≤ k ∧ k < ks.length := by
      rw [tail]
      simp only [mem_map, mem_reverse, mem_range, length_map,
        length_reverse, length_range]
      constructor
      · rintro ⟨i, inside, rfl⟩
        exact ⟨Int.natCast_nonneg i, Int.ofNat_lt.2 inside⟩
      · rintro ⟨low, high⟩
        exact ⟨k.toNat, by omega, Int.toNat_of_nonneg low⟩
    have head : x = ks.length := by
      have low := nonneg x (.head _)
      have least : (ks.length : Int) ≤ x := by
        by_cases none : ks.length = 0
        · omega
        · have := below (ks.length - 1) ((mem_iff _).2 (by omega))
          omega
      have most : x ≤ ks.length := by
        by_cases zero : x = 0
        · omega
        · have next := closed x (.head _) (by omega)
          have := (mem_iff _).1 ((mem_cons.1 next).resolve_left (by omega))
          omega
      omega
    rw [length_cons, range_succ, reverse_append, map_append, ← tail, head]
    rfl

namespace Compile

/-! ## chains of reads -/

inductive ReadChain (c : Context) : DispatchId → Nat → Prop
  | main : ReadChain c 0 0
  | read {d e : DispatchId} {k : Nat} (chain : ReadChain c d k) (reads : Reads c d e) :
      ReadChain c e (k + 1)

section
variable {done : List NodeId} {c c' : Context}

theorem Reads.inside (h : Reads c d e) : e < c.entries.size := by
  obtain ⟨b, written, -⟩ := h
  refine Nat.lt_of_not_le fun outside => ?_
  unfold Context.entry at written
  rw [Array.getD_eq_getD_getElem?, Array.getElem?_eq_none outside] at written
  cases written

theorem ReadChain.inside {k : Nat} (h : ReadChain c d k)
    (some : 0 < c.entries.size) : d < c.entries.size := by
  cases h with
  | main => exact some
  | read _ reads => exact reads.inside

/-- what is sampled is listed, and nothing else -/
theorem Linked.reads_iff (l : Linked done c) (k : Kept c) (inside : d < c.entries.size)
    (resolved : ∀ e ∈ (c.entry d).reads, Reads c d e) : Reads c d e ↔ e ∈ (c.entry d).reads := by
  refine ⟨fun reads => ?_, resolved e⟩
  obtain ⟨b, written, sampled⟩ := id reads
  obtain ⟨e', listed, written'⟩ := l.sampled d inside b sampled
  obtain ⟨positive, inside', -⟩ := l.deep.ranked d inside e' listed
  have own := l.buffer e' inside' positive b written'
  by_cases main : e = 0
  · -- an output has no buffer of a cache
    subst main
    obtain ⟨m, -, name⟩ := k.cacheNames e' inside' positive
    rw [name] at own
    exact absurd own (l.main b written m)
  · have own' := l.buffer e reads.inside (Nat.pos_of_ne_zero main) b written
    have name := (String.append_right_inj "buf_").1 (own'.symm.trans own)
    rw [k.distinct e reads.inside e' inside' name]
    exact listed

/-- every listed read is a sample -/
def Sampled (c : Context) : Prop :=
  ∀ d < c.entries.size, ∀ e ∈ (c.entry d).reads, Reads c d e

theorem ReadChain.le_depth {n : Nat} (h : ReadChain c d n) (l : Linked done c)
    (k : Kept c) (all : Sampled c) : (n : Int) ≤ (c.entry d).depth := by
  induction h with
  | main =>
    rw [l.deep.main]
    exact le_rfl
  | @read d e n chain reads ih =>
    have inside := chain.inside k.main.1
    have listed := (l.reads_iff k inside (all d inside)).1 reads
    have := l.deep.lower d inside e listed
    omega

theorem rank_le_length (done : List NodeId) (id : NodeId) : rank done id ≤ done.length := by
  induction done with
  | nil => exact le_rfl
  | cons x done ih =>
    unfold rank
    rw [length_cons]
    split <;> omega

theorem key_le_length (done : List NodeId) (c : Context) (d : DispatchId) :
    c.key done d ≤ done.length := by
  unfold Context.key
  split
  · exact rank_le_length done _
  · exact le_rfl

/-- some chain is as long as the dispatch is deep -/
theorem Linked.exists_chain (l : Linked done c) (all : Sampled c) (n : Nat) (d : DispatchId)
    (inside : d < c.entries.size) (near : done.length ≤ c.key done d + n) :
    ∃ k : Nat, (c.entry d).depth = k ∧ ReadChain c d k := by
  -- from reader to reader the key rises, so that the main dispatch is reached
  induction n generalizing d with
  | zero =>
    by_cases main : d = 0
    · subst main
      exact ⟨0, l.deep.main, .main⟩
    · obtain ⟨p, there, listed, -⟩ := l.deep.upper d inside (Nat.pos_of_ne_zero main)
      have := (l.deep.ranked p there d listed).2.2
      have := key_le_length done c p
      omega
  | succ n ih =>
    by_cases main : d = 0
    · subst main
      exact ⟨0, l.deep.main, .main⟩
    · obtain ⟨p, there, listed, le⟩ := l.deep.upper d inside (Nat.pos_of_ne_zero main)
      have rises := (l.deep.ranked p there d listed).2.2
      obtain ⟨k, depth, chain⟩ := ih p there (by omega)
      have lower := l.deep.lower p there d listed
      exact ⟨k + 1, by omega, chain.read (all p there d listed)⟩

theorem Linked.depth_greatest (l : Linked done c) (k : Kept c) (all : Sampled c)
    (inside : d < c.entries.size) :
    ∃ n : Nat, (c.entry d).depth = n ∧ IsGreatest {m | ReadChain c d m} n := by
  obtain ⟨n, depth, chain⟩ := l.exists_chain all done.length d inside (Nat.le_add_left _ _)
  refine ⟨n, depth, chain, ?_⟩
  intro m longer
  have := ReadChain.le_depth longer l k all
  omega

theorem Linked.depth_eq_zero (l : Linked done c) (all : Sampled c)
    (inside : d < c.entries.size) : (c.entry d).depth = 0 ↔ d = 0 := by
  refine ⟨fun zero => ?_, fun main => main ▸ l.deep.main⟩
  by_contra other
  -- a reader would lie above it
  obtain ⟨p, there, listed, -⟩ := l.deep.upper d inside (Nat.pos_of_ne_zero other)
  obtain ⟨n, depth, -⟩ := l.exists_chain all done.length p there (Nat.le_add_left _ _)
  have := l.deep.lower p there d listed
  omega

theorem Linked.depth_closed (l : Linked done c)
    (inside : d < c.entries.size) (positive : 0 < (c.entry d).depth) :
    ∃ p < c.entries.size, (c.entry p).depth = (c.entry d).depth - 1 := by
  have other : d ≠ 0 := by
    intro main
    rw [main, l.deep.main] at positive
    exact absurd positive (lt_irrefl 0)
  obtain ⟨p, there, listed, le⟩ := l.deep.upper d inside (Nat.pos_of_ne_zero other)
  have := l.deep.lower p there d listed
  exact ⟨p, there, by omega⟩

/-! ## the list of dispatches -/

theorem Change.dispatches (h : Change c c') (all : c.dispatches = List.range c.entries.size) :
    c'.dispatches = List.range c'.entries.size := by
  cases h with
  | cacheOpened n reader reduction reads unknown =>
    rw [size_cacheOpened, range_succ, ← all]
    rfl
  | readAgain node reader id reads known =>
    rw [size_readAgain, ← all, readAgain_frame]
  | cacheClosed id name shape s =>
    have size : (c.cacheClosed id name shape s).entries.size = c.entries.size :=
      size_modifyEntry _ _ _
    rw [size]
    exact all
  | rooted r shape s =>
    have size : (c.rooted r shape s).entries.size = c.entries.size := size_modifyEntry _ _ _
    rw [size]
    exact all
  | _ => exact all

theorem Reaches.dispatches (h : Reaches c c') (all : c.dispatches = List.range c.entries.size) :
    c'.dispatches = List.range c'.entries.size := by
  induction h with
  | refl => exact all
  | tail _ change ih => exact change.dispatches ih

theorem kept_finished (k : Kept c) : Kept c.finished :=
  ⟨k.root, fun i member => k.stack i (mem_of_mem_tail member), k.dispatch, k.entryScope, k.main,
    k.cacheNames, k.distinct, k.caches, k.serials, k.nested, k.placed, k.deep⟩

theorem linked_finished (l : Linked done c) (k : Kept c) : Linked done c.finished :=
  l.still k ⟨rfl, rfl, le_rfl, fun _ _ => rfl⟩

theorem finished_perm (all : c.dispatches = List.range c.entries.size) :
    c.finished.dispatches.Perm (List.range c.entries.size) :=
  all ▸ mergeSort_perm _ _

theorem falls_mergeSort (depth : Nat → Int) (l : List Nat) :
    (l.mergeSort fun a b => depth b ≤ depth a).Pairwise fun a b => depth b ≤ depth a := by
  have sorted := @pairwise_mergeSort _ (fun a b => decide (depth b ≤ depth a))
    (fun a b d h h' => by simp only [decide_eq_true_eq] at h h' ⊢; omega)
    (fun a b => by simp only [Bool.or_eq_true, decide_eq_true_eq]; omega) l
  exact sorted.imp fun h => of_decide_eq_true h

theorem finished_falls (c : Context) :
    c.finished.toProgram.dispatches.Pairwise fun a b => b.depth ≤ a.depth :=
  pairwise_map.2 (falls_mergeSort (fun d => (c.entry d).depth) c.dispatches)

theorem written_falls {g : Graph} {roots : List Root} {o : Options} (h : g.parsed roots o = .ok c) :
    c.writtenScopes.Pairwise fun i j => (c.scope j).depth ≤ (c.scope i).depth := by
  obtain ⟨-, -, d, -, rfl, -⟩ := parsed_ok h
  exact falls_mergeSort (fun i => (d.scope i).depth) d.found

theorem validate_free {g : Graph} {roots : List Root} {required : List String}
    (h : g.validate roots required = .ok ()) :
    ∀ r ∈ roots, ∀ k : Nat, r.target ≠ "cache_" ++ toString k := by
  intro r member k same
  refine ((validate_fits h).1 r member).free ?_
  rw [same, String.toList_append]
  exact prefix_append _ _

theorem linked_of_parsed {g : Graph} (wf : g.WellFormed) {roots : List Root} {o : Options}
    (h : g.parsed roots o = .ok c) :
    ∃ done, Linked done c ∧ Kept c ∧ Sampled c ∧ c.dispatches.Perm (List.range c.entries.size) := by
  obtain ⟨-, valid, d, ran, rfl, -⟩ := parsed_ok h
  obtain ⟨done, sorted, there⟩ := validate_sorted wf valid
  have follows := ran.follows wf sorted there (validate_free valid) (kept_opened o)
    (linked_opened done o) ⟨rfl, rfl⟩
  have kept := follows.reaches.kept (kept_opened o)
  refine ⟨done, linked_finished follows.linked kept, kept_finished kept, ?_,
    finished_perm (follows.reaches.dispatches rfl)⟩
  intro i inside e listed
  rcases follows.resolved i inside e listed with ⟨old, before⟩ | sampled
  · -- the main dispatch began without reads
    obtain rfl := Nat.lt_one_iff.1 old
    cases before
  · exact sampled

end

/-! ## schedules -/

/-- what a schedule is good for, told by the functions of the dispatches -/
structure Scheduled (c : Context) (p : Program) : Prop where
  /-- dispatches have names of their own -/
  named : ∀ d < c.entries.size, ∀ e < c.entries.size, (c.entry d).name = (c.entry e).name → d = e
  /-- the program lists every dispatch once -/
  dispatches : p.dispatches.Perm ((List.range c.entries.size).map fun d => (c.entry d).record)
  /-- depths are the lengths of longest chains of reads from the main dispatch -/
  depth : ∀ d < c.entries.size,
    ∃ n : Nat, (c.entry d).depth = n ∧ IsGreatest {m | ReadChain c d m} n
  whole : p.schedule.flatMap Stage.dispatches = p.dispatches
  level : ∀ s ∈ p.schedule, ∀ d ∈ s.dispatches, d.depth = s.depth
  /-- the depths of the stages count down to zero -/
  countdown : ∃ n : Nat, p.schedule.map Stage.depth = (List.range (n + 1)).reverse.map Int.ofNat
  /-- the main dispatch comes last, by itself -/
  last : (c.entry 0).name = mainDispatch ∧ p.schedule.getLast? = some ⟨0, [(c.entry 0).record]⟩
  /-- every buffer that is sampled is written, and what writes it belongs to an earlier stage -/
  earlier : ∀ before s after, p.schedule = before ++ s :: after →
    ∀ d < c.entries.size, (c.entry d).record ∈ s.dispatches →
      ∀ b ∈ (c.scope (c.entry d).scope).samples, (∃ e, b ∈ (c.entry e).buffers) ∧
        ∀ e, b ∈ (c.entry e).buffers → ∃ t ∈ before, (c.entry e).record ∈ t.dispatches

section
variable {done : List NodeId} {c : Context}

section
variable (perm : c.dispatches.Perm (List.range c.entries.size))
include perm

theorem mem_dispatches (inside : d < c.entries.size) :
    (c.entry d).record ∈ c.toProgram.dispatches :=
  mem_map.2 ⟨d, perm.mem_iff.2 (mem_range.2 inside), rfl⟩

theorem exists_of_mem_dispatches {w : Dispatch}
    (member : w ∈ c.toProgram.dispatches) : ∃ d < c.entries.size, (c.entry d).record = w := by
  obtain ⟨d, inside, rfl⟩ := mem_map.1 member
  exact ⟨d, mem_range.1 (perm.mem_iff.1 inside), rfl⟩

theorem mem_depths {k : Int} :
    k ∈ c.toProgram.schedule.map Stage.depth ↔ ∃ d < c.entries.size, (c.entry d).depth = k := by
  constructor
  · intro member
    obtain ⟨s, there, rfl⟩ := mem_map.1 member
    obtain ⟨some, level⟩ := stages_level _ s there
    obtain ⟨w, inside⟩ := exists_mem_of_ne_nil _ some
    obtain ⟨d, inside', rfl⟩ := exists_of_mem_dispatches perm (mem_stages_iff.1 ⟨s, there, inside⟩)
    exact ⟨d, inside', level _ inside⟩
  · rintro ⟨d, inside, rfl⟩
    obtain ⟨s, there, member⟩ := mem_stages_iff.2 (mem_dispatches perm inside)
    exact mem_map.2 ⟨s, there, ((stages_level _ s there).2 _ member).symm⟩

end

section
variable (l : Linked done c) (k : Kept c) (all : Sampled c)
  (perm : c.dispatches.Perm (List.range c.entries.size))
include l k all perm

theorem Linked.countdown (falls : c.toProgram.schedule.Pairwise fun s t => t.depth < s.depth) :
    ∃ n : Nat, c.toProgram.schedule.map Stage.depth =
      (List.range (n + 1)).reverse.map Int.ofNat := by
  have counted := @eq_countdown (c.toProgram.schedule.map Stage.depth) (pairwise_map.2 falls)
    (fun j member => by
      obtain ⟨d, inside, rfl⟩ := (mem_depths perm).1 member
      obtain ⟨n, depth, -⟩ := l.depth_greatest k all inside
      omega)
    (fun j member positive => by
      obtain ⟨d, inside, rfl⟩ := (mem_depths perm).1 member
      obtain ⟨p, there, depth⟩ := l.depth_closed inside positive
      exact (mem_depths perm).2 ⟨p, there, depth⟩)
  have some : (c.toProgram.schedule.map Stage.depth).length ≠ 0 := by
    have main : (0 : Int) ∈ c.toProgram.schedule.map Stage.depth :=
      (mem_depths perm).2 ⟨0, k.main.1, l.deep.main⟩
    exact fun none => absurd (eq_nil_of_length_eq_zero none ▸ main) not_mem_nil
  obtain ⟨n, length⟩ := Nat.exists_eq_succ_of_ne_zero some
  rw [length] at counted
  exact ⟨n, counted⟩

theorem Linked.mainStage :
    (c.toProgram.dispatches.filter fun d => d.depth = 0) = [(c.entry 0).record] := by
  have ids : c.dispatches.filter (fun d => (c.entry d).depth = 0) = [0] := by
    refine perm_singleton.1 ((perm.filter _).trans ?_)
    have same : (List.range c.entries.size).filter (fun d => (c.entry d).depth = 0) =
        (List.range c.entries.size).filter (fun d => d = 0) := by
      refine filter_congr fun d inside => ?_
      rw [decide_eq_decide]
      exact l.depth_eq_zero all (mem_range.1 inside)
    rw [same, filter_eq, count_eq_one_of_mem nodup_range (mem_range.2 k.main.1)]
    exact .refl _
  have mapped : c.toProgram.dispatches.filter (fun d => d.depth = 0) =
      (c.dispatches.filter fun d => (c.entry d).depth = 0).map fun d => (c.entry d).record :=
    filter_map
  rw [mapped, ids]
  rfl

section
variable (falls : c.toProgram.schedule.Pairwise fun s t => t.depth < s.depth)
include falls

theorem Linked.lastStage :
    c.toProgram.schedule.getLast? = some ⟨0, [(c.entry 0).record]⟩ := by
  obtain ⟨n, counted⟩ := l.countdown k all perm falls
  have ends : (c.toProgram.schedule.map Stage.depth).getLast? = some 0 := by
    rw [counted, getLast?_map, getLast?_reverse, head?_range]
    rfl
  rw [getLast?_map, Option.map_eq_some_iff] at ends
  obtain ⟨s, last, depth⟩ := ends
  have only := stages_filter falls (fun t there => (stages_level _ t there).2)
    (mem_of_getLast? last)
  have whole : c.toProgram.schedule.flatMap Stage.dispatches = c.toProgram.dispatches :=
    stages_flatMap _
  rw [whole, depth, l.mainStage k all perm] at only
  rw [last, ← only, ← depth]

theorem Linked.earlier
    {before after : List Stage} {s : Stage} (schedule : c.toProgram.schedule = before ++ s :: after)
    (inside : d < c.entries.size) (member : (c.entry d).record ∈ s.dispatches)
    (reads : Reads c d e) : ∃ t ∈ before, (c.entry e).record ∈ t.dispatches := by
  have listed := (l.reads_iff k inside (all d inside)).1 reads
  have deeper := l.deep.lower d inside e listed
  obtain ⟨t, there, written⟩ := mem_stages_iff.2 (mem_dispatches perm reads.inside)
  have here : s ∈ stages c.toProgram.dispatches := by
    show s ∈ c.toProgram.schedule
    rw [schedule]
    exact mem_append_cons_self
  have level : (c.entry d).depth = s.depth := (stages_level _ s here).2 _ member
  have level' : (c.entry e).depth = t.depth := (stages_level _ t there).2 _ written
  refine ⟨t, ?_, written⟩
  have there : t ∈ before ++ s :: after := schedule ▸ there
  refine (mem_append.1 there).resolve_right fun late => ?_
  -- stages from `s` on are not deeper than `s`
  rw [schedule] at falls
  have below := (pairwise_cons.1 (pairwise_append.1 falls).2.1).1
  rcases mem_cons.1 late with rfl | late
  · omega
  · have := below t late
    omega

end

end

end

end Compile

open Compile

/-- **Schedules follow reads.**  The depth of a dispatch is the length of the longest chain of reads
from the main dispatch, and the stages of a program run what is read before what reads it. -/
theorem compile_scheduled {g : Graph} (built : g.Built) {roots : List Root} {o : Options}
    {p : Program} (h : g.compile roots o = .ok p) :
    ∃ c, g.parsed roots o = .ok c ∧ p = c.toProgram ∧ Scheduled c p := by
  rw [compile_eq] at h
  cases parsed : g.parsed roots o with
  | error e =>
    rw [parsed] at h
    cases h
  | ok c =>
    rw [parsed] at h
    cases h
    obtain ⟨done, l, k, all, perm⟩ := linked_of_parsed built.wellFormed parsed
    obtain ⟨-, -, d, -, rfl, -⟩ := parsed_ok parsed
    have falls := stages_falls (finished_falls d)
    refine ⟨d.finished, rfl, rfl, k.distinct, perm.map _,
      fun i inside => l.depth_greatest k all inside,
      stages_flatMap _, fun s there => (stages_level _ s there).2, l.countdown k all perm falls,
      ⟨k.main.2, l.lastStage k all perm falls⟩, ?_⟩
    intro before s after schedule i inside member b sampled
    obtain ⟨e, -, written⟩ := l.sampled i inside b sampled
    exact ⟨⟨e, written⟩, fun e written =>
      l.earlier k all perm falls schedule inside member ⟨b, written, sampled⟩⟩

/-- a cache that the output reads first and another cache later, so that it has to be raised -/
def raisedCache : Graph :=
  let g := (Graph.initial.insert (.constant (.scalar .one)) []).2
  let g := (g.insert (.cache 0) [.node 2]).2
  let g := (g.insert (.cache 0) [.node 3]).2
  (g.insert (.binary .add) [.node 3, .node 4]).2

theorem built_raisedCache : raisedCache.Built :=
  .insert _ _ (.insert _ _ (.insert _ _ (.insert _ _ .initial (by simp) rfl) (by simp) rfl)
    (by simp) rfl) (by simp) rfl

theorem compile_scheduled_raised :
    ∃ p c, raisedCache.compile [⟨"density", some 5⟩] ⟨[], some [], 0⟩ = .ok p ∧
      c.entries.toList.map Entry.depth = [0, 2, 1] ∧ Scheduled c p := by
  obtain ⟨c, parsed, depths⟩ :
      ∃ c, raisedCache.parsed [⟨"density", some 5⟩] ⟨[], some [], 0⟩ = .ok c ∧
        c.entries.toList.map Entry.depth = [0, 2, 1] := by decide +kernel
  have compiled : raisedCache.compile [⟨"density", some 5⟩] ⟨[], some [], 0⟩ = .ok c.toProgram :=
    compile_ok_iff.2 ⟨c, parsed, rfl⟩
  obtain ⟨c', parsed', -, scheduled⟩ := compile_scheduled built_raisedCache compiled
  cases parsed.symm.trans parsed'
  exact ⟨c.toProgram, c, compiled, depths, scheduled⟩

end Terrain
