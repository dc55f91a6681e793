import Terrain.Proofs.Calls
import Terrain.Proofs.Inlined

/-!
# Runs are fenced

The calls of a run of a compiled program, whatever the device answers and in whatever order the
dispatches of a stage reach it.  A run executes blocks of calls (`runIn_eq`), so a call is
understood by the block it belongs to: everything in the blocks before has been called and has
succeeded.

* `execute_at`      the block of a call;
* `runBlocks_at`    the blocks before the dispatches of a stage;
* `Fenced`          what holds of the calls of every run;
* `Completed`       what holds when a run succeeds;
* `runIn_fenced`    runs of compiled programs are fenced, and complete if they succeed.
-/

namespace Terrain.Pipeline

open List

variable {i : Nat} {stages : List Stage} {block : List Call} {call : Call} {st : Stage}

/-! ## the block of a call -/

section
variable {α : Type}

theorem middle_append {xs ys before after : List α} {x : α} (h : xs ++ ys = before ++ x :: after) :
    (∃ rest, xs = before ++ x :: rest ∧ after = rest ++ ys) ∨
      ∃ rest, before = xs ++ rest ∧ ys = rest ++ x :: after := by
  rcases append_eq_append_iff.1 h with ⟨rest, rfl, tail⟩ | ⟨rest, rfl, tail⟩
  · exact .inr ⟨rest, rfl, tail⟩
  · cases rest with
    | nil => exact .inr ⟨[], (append_nil _).symm.trans (append_nil _).symm, tail.symm⟩
    | cons y rest =>
      cases tail
      exact .inl ⟨rest, rfl, rfl⟩

end

section
variable {device : Device} {t a b : Trace} {x : Attempt} {blocks : List (List Call)}

theorem map_call_execute (ok : Trace.succeeds (execute device t blocks) = true) :
    (execute device t blocks).map Attempt.call = blocks.flatten := by
  induction blocks generalizing t with
  | nil => rfl
  | cons block rest ih =>
    unfold execute at ok ⊢
    rw [succeeds_append, Bool.and_eq_true] at ok
    rw [if_pos ok.1] at ok ⊢
    rw [map_append, map_call_answers, ih ok.2, flatten_cons]

theorem execute_called (device : Device) (t : Trace) (blocks : List (List Call)) :
    (execute device t blocks).map Attempt.call <+: blocks.flatten := by
  induction blocks generalizing t with
  | nil => exact prefix_refl _
  | cons block rest ih =>
    unfold execute
    rw [map_append, map_call_answers, flatten_cons]
    split
    · exact prefix_append_right_inj _ |>.2 (ih _)
    · rw [map_nil, append_nil]
      exact prefix_append _ _

/-- the blocks before that of a call were called and have succeeded; if its own block fails, that
is the last one -/
theorem execute_at (h : execute device t blocks = a ++ x :: b) :
    ∃ done block rest a₁ a₂ b₁ b₂, blocks = done ++ block :: rest ∧ a = a₁ ++ a₂ ∧ b = b₁ ++ b₂ ∧
      Trace.succeeds a₁ = true ∧ a₁.map Attempt.call = done.flatten ∧
      (a₂ ++ x :: b₁).map Attempt.call = block ∧
      (Trace.succeeds (a₂ ++ x :: b₁) = false → b₂ = []) := by
  induction blocks generalizing t a with
  | nil => exact absurd h.symm (by simp [execute])
  | cons block rest ih =>
    unfold execute at h
    rcases middle_append h with ⟨b₁, here, later⟩ | ⟨a', rfl, later⟩
    · refine ⟨[], block, rest, [], a, b₁, _, rfl, rfl, later, rfl, rfl, ?_, fun failed => ?_⟩
      · rw [← here]
        exact map_call_answers _ _ _
      · rw [← here] at failed
        rw [if_neg (by rw [failed]; exact Bool.false_ne_true)]
    · split at later
      · next ok =>
        obtain ⟨done, block', rest', a₁, a₂, b₁, b₂, rfl, rfl, rfl, succeeded, calls, own, last⟩ :=
          ih later
        refine ⟨block :: done, block', rest', answers device t block ++ a₁, a₂, b₁, b₂, rfl,
          (append_assoc _ _ _).symm, rfl, ?_, ?_, own, last⟩
        · rw [succeeds_append, ok, succeeded]
          rfl
        · rw [map_append, map_call_answers, calls, flatten_cons]
      · exact absurd later.symm (by simp)

end

/-! ## the blocks of a run -/

/-- the entry point that a call enqueues -/
def Call.dispatched : Call → Option String
  | dispatch _ name _ => some name
  | _ => none

/-- upload, uniforms, stages, readbacks -/
def Call.phase : Call → Nat
  | upload _ _ => 0
  | uniforms _ _ _ => 1
  | dispatch _ _ _ | fence => 2
  | readback _ _ => 3
  | release _ => 4

section
variable {s : ExecutionState} {arrivals : Arrivals} {p : Program} {name : String}
  {segment : Segment} {size : UInt32}

def stageCalls (arrivals : Arrivals) (p : Program) (size : UInt32) (stage : Stage) : List Call :=
  (arrivals stage).map (dispatchCall p size)

theorem mem_stageBlocks (h : block ∈ stageBlocks arrivals p size i stages) :
    block = [.fence] ∨ ∃ st ∈ stages, block = stageCalls arrivals p size st := by
  induction stages generalizing i with
  | nil => cases h
  | cons st rest ih =>
    unfold stageBlocks at h
    rcases mem_append.1 h with fenced | h
    · split at fenced
      · exact .inl (mem_singleton.1 fenced)
      · cases fenced
    · rcases mem_cons.1 h with rfl | h
      · exact .inr ⟨st, .head _, rfl⟩
      · rcases ih h with fence | ⟨st', there, calls⟩
        · exact .inl fence
        · exact .inr ⟨st', .tail _ there, calls⟩

theorem stageBlocks_at {done rest : List (List Call)}
    (h : stageBlocks arrivals p size i stages = done ++ block :: rest) (staged : block ≠ [.fence]) :
    ∃ before st after, stages = before ++ st :: after ∧ block = stageCalls arrivals p size st ∧
      done = stageBlocks arrivals p size i before ++ if 0 < i + before.length then
        [[.fence]] else [] := by
  induction stages generalizing i done with
  | nil => exact absurd h.symm (by simp [stageBlocks])
  | cons st stages ih =>
    unfold stageBlocks at h
    rcases middle_append h with ⟨_, fence, -⟩ | ⟨done', rfl, own⟩
    · split at fence
      · rcases cons_eq_append_iff.1 fence with ⟨-, eq⟩ | ⟨_, -, eq⟩
        · exact absurd (List.cons.inj eq).1 staged
        · exact absurd eq.symm (by simp)
      · exact absurd fence.symm (by simp)
    · cases done' with
      | nil =>
        cases own
        exact ⟨[], st, stages, rfl, rfl, append_nil _⟩
      | cons first done' =>
        obtain ⟨rfl, later⟩ := List.cons.inj own
        obtain ⟨before, st', after, rfl, calls, rfl⟩ := ih later
        have count : i + (st :: before).length = i + 1 + before.length := by
          rw [length_cons]
          omega
        refine ⟨st :: before, st', after, rfl, calls, ?_⟩
        rw [count, stageBlocks, append_assoc]
        rfl

def runBlocks (s : ExecutionState) (arrivals : Arrivals) (name : String) (segment : Segment) :
    List (List Call) :=
  workBlocks s arrivals name segment ++ [readbackCalls s.program]

theorem mem_runBlocks (h : block ∈ runBlocks s arrivals name segment) :
    (∃ call : Call, block = [call] ∧ call.phase < 3) ∨
      (∃ st ∈ s.program.schedule, block = stageCalls arrivals s.program segment.size st) ∨
      block = readbackCalls s.program := by
  unfold runBlocks workBlocks stagedBlocks at h
  rcases mem_append.1 h with h | h
  · rcases mem_append.1 h with upload | h
    · unfold uploadBlocks at upload
      split at upload
      · cases upload
      · exact .inl ⟨_, mem_singleton.1 upload, Nat.zero_lt_succ _⟩
    · rcases mem_cons.1 h with rfl | h
      · exact .inl ⟨_, rfl, Nat.lt_of_sub_eq_succ rfl⟩
      · rcases mem_append.1 h with h | fence
        · rcases mem_stageBlocks h with rfl | staged
          · exact .inl ⟨_, rfl, by decide⟩
          · exact .inr (.inl staged)
        · exact .inl ⟨_, mem_singleton.1 fence, by decide⟩
  · exact .inr (.inr (mem_singleton.1 h))

/-- the blocks before a stage: upload, uniforms, the stages before it and a fence -/
def blocksBefore (s : ExecutionState) (arrivals : Arrivals) (name : String) (segment : Segment)
    (before : List Stage) : List (List Call) :=
  uploadBlocks s name segment.size ++
    [.uniforms s.program.digest { segment with seed := s.seed }.bytes s.parameters] ::
      (stageBlocks arrivals s.program segment.size 0 before ++
        if 0 < before.length then [[.fence]] else [])

theorem runBlocks_at {done rest : List (List Call)}
    (h : runBlocks s arrivals name segment = done ++ block :: rest) (member : call ∈ block)
    (dispatch : call.dispatched ≠ none) :
    ∃ before st after, s.program.schedule = before ++ st :: after ∧
      block = stageCalls arrivals s.program segment.size st ∧
      done = blocksBefore s arrivals name segment before := by
  have only {c : Call} (eq : block = [c]) (other : c.dispatched = none) : False :=
    dispatch (mem_singleton.1 (eq ▸ member) ▸ other)
  have inside {xs before after : List (List Call)} (eq : xs = before ++ block :: after) :
      block ∈ xs := eq ▸ mem_append_cons_self
  unfold runBlocks workBlocks stagedBlocks at h
  rcases middle_append h with ⟨_, work, -⟩ | ⟨_, -, last⟩
  · rcases middle_append work with ⟨_, upload, -⟩ | ⟨done, rfl, staged⟩
    · unfold uploadBlocks at upload
      split at upload
      · cases inside upload
      · exact (only (mem_singleton.1 (inside upload)) rfl).elim
    · cases done with
      | nil => exact (only (List.cons.inj staged).1.symm rfl).elim
      | cons _ done =>
        obtain ⟨rfl, later⟩ := List.cons.inj staged
        rcases middle_append later with ⟨_, own, -⟩ | ⟨_, -, fence⟩
        · obtain ⟨before, st, after, split, calls, rfl⟩ := stageBlocks_at own fun eq => only eq rfl
          refine ⟨before, st, after, split, calls, ?_⟩
          rw [blocksBefore, zero_add]
        · exact (only (mem_singleton.1 (inside fence)) rfl).elim
  · obtain rfl := mem_singleton.1 (inside last)
    obtain ⟨_, -, rfl⟩ := mem_map.1 member
    exact absurd rfl dispatch

theorem phase_uploadBlocks (h : call ∈ (uploadBlocks s name size).flatten) : call.phase = 0 := by
  unfold uploadBlocks at h
  split at h
  · cases h
  · rw [mem_singleton.1 h]
    rfl

theorem phase_stageBlocks
    (h : call ∈ (stageBlocks arrivals p size i stages ++ [[Call.fence]]).flatten) :
    call.phase = 2 := by
  obtain ⟨block, there, member⟩ := mem_flatten.1 h
  have staged : block = [.fence] ∨ ∃ st ∈ stages, block = stageCalls arrivals p size st :=
    (mem_append.1 there).elim mem_stageBlocks fun last => .inl (mem_singleton.1 last)
  rcases staged with rfl | ⟨st, -, rfl⟩
  · rw [mem_singleton.1 member]
    rfl
  · obtain ⟨d, -, rfl⟩ := mem_map.1 member
    rfl

theorem phase_readbackCalls (h : call ∈ readbackCalls p) : call.phase = 3 := by
  obtain ⟨b, -, rfl⟩ := mem_map.1 h
  rfl

theorem pairwise_phase {calls : List Call} {k : Nat} (h : ∀ call ∈ calls, call.phase = k) :
    calls.Pairwise fun x y => x.phase ≤ y.phase :=
  pairwise_of_forall_mem_list fun x hx y hy => ((h x hx).trans (h y hy).symm).le

theorem runBlocks_flatten (s : ExecutionState) (arrivals : Arrivals) (name : String)
    (segment : Segment) : (runBlocks s arrivals name segment).flatten =
      (uploadBlocks s name segment.size).flatten ++
        .uniforms s.program.digest { segment with seed := s.seed }.bytes s.parameters ::
          ((stageBlocks arrivals s.program segment.size 0 s.program.schedule ++
            [[Call.fence]]).flatten ++ readbackCalls s.program) := by
  unfold runBlocks workBlocks stagedBlocks
  rw [flatten_append, flatten_append, flatten_singleton, flatten_cons,
    append_assoc]
  rfl

theorem runBlocks_phases (s : ExecutionState) (arrivals : Arrivals) (name : String)
    (segment : Segment) :
    (runBlocks s arrivals name segment).flatten.Pairwise fun x y => x.phase ≤ y.phase := by
  rw [runBlocks_flatten, pairwise_append, pairwise_cons, pairwise_append]
  refine ⟨pairwise_phase fun _ => phase_uploadBlocks, ⟨fun y later => ?_,
    pairwise_phase fun _ => phase_stageBlocks, pairwise_phase fun _ => phase_readbackCalls,
    fun x hx y hy => ?_⟩, fun x hx y _ => ?_⟩
  · rcases mem_append.1 later with later | later
    · rw [phase_stageBlocks later]
      exact Nat.le_succ 1
    · rw [phase_readbackCalls later]
      exact Nat.le_add_left 1 2
  · rw [phase_stageBlocks hx, phase_readbackCalls hy]
    exact Nat.le_succ 2
  · rw [phase_uploadBlocks hx]
    exact Nat.zero_le _

end

/-! ## fences -/

open Compile (Context Reads)

/-- the stages of a program follow the reads between its dispatches -/
structure Staged (c : Context) (p : Program) : Prop where
  named : ∀ w ∈ p.dispatches, ∀ d < c.entries.size, w.name = (c.entry d).name →
    w = (c.entry d).record
  earlier : ∀ before st after, p.schedule = before ++ st :: after → ∀ d < c.entries.size, ∀ e,
    Reads c d e → (c.entry d).record ∈ st.dispatches →
      (∃ t ∈ before, (c.entry e).record ∈ t.dispatches) ∧ (c.entry e).record ∉ st.dispatches

structure Fenced (c : Context) (p : Program) (t : Trace) : Prop where
  phases : t.Pairwise fun x y => x.call.phase ≤ y.call.phase
  /-- uniforms are written before anything is dispatched -/
  uniforms : ∀ a x b, t = a ++ x :: b → x.call.dispatched ≠ none →
    ∃ u ∈ a, u.call.phase = 1 ∧ u.failure = none
  /-- what a dispatch samples was dispatched before it -/
  written : ∀ d < c.entries.size, ∀ e, Reads c d e →
    ∀ a y b, t = a ++ y :: b → y.call.dispatched = some (c.entry d).name →
      ∃ x ∈ a, x.call.dispatched = some (c.entry e).name ∧ x.failure = none
  /-- a fence stands between a dispatch and another that samples what it writes -/
  between : ∀ d < c.entries.size, ∀ e, Reads c d e →
    ∀ a x m y b, t = a ++ x :: (m ++ y :: b) → x.call.dispatched = some (c.entry e).name →
      y.call.dispatched = some (c.entry d).name → ∃ f ∈ m, f.call = .fence ∧ f.failure = none
  /-- a call that fails before the readbacks is the last one -/
  ended : ∀ a x b, t = a ++ x :: b → x.failure ≠ none → x.call.phase < 3 →
    x.call.dispatched = none → b = []
  /-- but for a dispatch, after which the others of its stage may come -/
  staged : ∀ a x b, t = a ++ x :: b → x.failure ≠ none → x.call.dispatched ≠ none →
    ∃ st ∈ p.schedule, ∀ y ∈ x :: b, ∃ w ∈ st.dispatches, y.call.dispatched = some w.name

theorem fenced_nil (c : Context) (p : Program) : Fenced c p [] := by
  have empty {a b : Trace} {x : Attempt} : [] ≠ a ++ x :: b := by simp
  exact ⟨.nil, fun _ _ _ split => absurd split empty, fun _ _ _ _ _ _ _ split => absurd split empty,
    fun _ _ _ _ _ _ _ _ _ split => absurd split empty, fun _ _ _ split => absurd split empty,
    fun _ _ _ split => absurd split empty⟩

section
variable {c : Context} {s : ExecutionState} {arrivals : Arrivals} {p : Program} {name : String}
  {segment : Segment} {size : UInt32} {device : Device} {a b : Trace} {x : Attempt}

theorem mem_stageCalls (arrive : ∀ st, (arrivals st).Perm st.dispatches)
    (h : call ∈ stageCalls arrivals p size st) :
    ∃ w ∈ st.dispatches, call.dispatched = some w.name := by
  obtain ⟨w, member, rfl⟩ := mem_map.1 h
  exact ⟨w, (arrive st).mem_iff.1 member, rfl⟩

theorem mem_schedule (there : st ∈ p.schedule) {w : Dispatch} (member : w ∈ st.dispatches) :
    w ∈ p.dispatches :=
  mem_stages_iff.1 ⟨st, there, member⟩

theorem Staged.member (h : Staged c p) (arrive : ∀ st, (arrivals st).Perm st.dispatches)
    (there : st ∈ p.schedule) (member : call ∈ stageCalls arrivals p size st) {d : Nat}
    (inside : d < c.entries.size) (named : call.dispatched = some (c.entry d).name) :
    (c.entry d).record ∈ st.dispatches := by
  obtain ⟨w, member, own⟩ := mem_stageCalls arrive member
  rw [← h.named w (mem_schedule there member) d inside (Option.some.inj (own.symm.trans named))]
  exact member

theorem dispatch_at (h : execute device [] (runBlocks s arrivals name segment) = a ++ x :: b)
    (dispatch : x.call.dispatched ≠ none) :
    ∃ before st after a₁ a₂ b₁ b₂, s.program.schedule = before ++ st :: after ∧ a = a₁ ++ a₂ ∧
      b = b₁ ++ b₂ ∧ Trace.succeeds a₁ = true ∧
      a₁.map Attempt.call = (blocksBefore s arrivals name segment before).flatten ∧
      (a₂ ++ x :: b₁).map Attempt.call = stageCalls arrivals s.program segment.size st ∧
      (Trace.succeeds (a₂ ++ x :: b₁) = false → b₂ = []) := by
  obtain ⟨done, block, rest, a₁, a₂, b₁, b₂, split, rfl, rfl, succeeded, calls, own, last⟩ :=
    execute_at h
  have member : x.call ∈ block := by
    rw [← own]
    exact mem_map_of_mem mem_append_cons_self
  obtain ⟨before, st, after, schedule, rfl, rfl⟩ := runBlocks_at split member dispatch
  exact ⟨before, st, after, a₁, a₂, b₁, b₂, schedule, rfl, rfl, succeeded, calls, own, last⟩

theorem exists_call {t : Trace} (ok : Trace.succeeds t = true)
    (member : call ∈ t.map Attempt.call) : ∃ x ∈ t, x.call = call ∧ x.failure = none := by
  obtain ⟨x, there, rfl⟩ := mem_map.1 member
  exact ⟨x, there, rfl, succeeds_iff.1 ok x there⟩

theorem mem_calls_before {before : List Stage} {t : Stage} (there : t ∈ before) {w : Dispatch}
    (member : w ∈ arrivals t) (i : Nat) :
    dispatchCall p size w ∈ (stageBlocks arrivals p size i before).flatten := by
  induction before generalizing i with
  | nil => cases there
  | cons st before ih =>
    unfold stageBlocks
    rw [flatten_append, flatten_cons]
    refine mem_append_right _ ?_
    rcases mem_cons.1 there with rfl | there
    · exact mem_append_left _ (mem_map_of_mem member)
    · exact mem_append_right _ (ih there (i + 1))

theorem Staged.reads_at (h : Staged c s.program) (arrive : ∀ st, (arrivals st).Perm st.dispatches)
    (split : execute device [] (runBlocks s arrivals name segment) = a ++ x :: b) {d e : Nat}
    (inside : d < c.entries.size) (reads : Reads c d e)
    (named : x.call.dispatched = some (c.entry d).name) :
    ∃ a₁ f a₂, a = a₁ ++ f :: a₂ ∧ f.call = .fence ∧ f.failure = none ∧
      (∃ y ∈ a₁, y.call.dispatched = some (c.entry e).name ∧ y.failure = none) ∧
      ∀ y ∈ a₂, y.call.dispatched ≠ some (c.entry e).name := by
  obtain ⟨before, st, after, a₁, a₂, b₁, b₂, schedule, rfl, rfl, succeeded, calls, own, -⟩ :=
    dispatch_at split (by rw [named]; nofun)
  have there : st ∈ s.program.schedule := schedule ▸ mem_append_cons_self
  have member : x.call ∈ stageCalls arrivals s.program segment.size st :=
    own ▸ mem_map_of_mem mem_append_cons_self
  obtain ⟨⟨t, earlier, written⟩, apart⟩ :=
    h.earlier before st after schedule d inside e reads (h.member arrive there member inside named)
  have some : 0 < before.length := length_pos_of_mem earlier
  rw [blocksBefore, if_pos some, ← cons_append, ← append_assoc, flatten_append,
    map_eq_append_iff] at calls
  obtain ⟨a₁, fence, rfl, calls, fenced⟩ := calls
  obtain ⟨f, rfl, called⟩ := map_eq_singleton_iff.1 fenced
  rw [succeeds_append, Bool.and_eq_true] at succeeded
  refine ⟨a₁, f, a₂, by rw [append_assoc]; rfl, called,
    succeeds_iff.1 succeeded.2 f (.head _), ?_, ?_⟩
  · have dispatched : dispatchCall s.program segment.size (c.entry e).record ∈
        a₁.map Attempt.call := by
      rw [calls, flatten_append, flatten_cons]
      exact mem_append_right _ (mem_append_right _
        (mem_calls_before earlier ((arrive t).mem_iff.2 written) 0))
    obtain ⟨y, there, eq, ok⟩ := exists_call succeeded.1 dispatched
    exact ⟨y, there, by rw [eq]; rfl, ok⟩
  · intro y late same
    have called : y.call ∈ stageCalls arrivals s.program segment.size st :=
      own ▸ mem_map_of_mem (mem_append_left _ late)
    exact apart (h.member arrive there called reads.inside same)

theorem succeeds_eq_false (failed : x.failure ≠ none) : Trace.succeeds (a ++ x :: b) = false :=
  Bool.eq_false_iff.2 fun ok =>
    failed (succeeds_iff.1 ok x mem_append_cons_self)

theorem Staged.fenced (h : Staged c s.program) (arrive : ∀ st, (arrivals st).Perm st.dispatches)
    (device : Device) (name : String) (segment : Segment) :
    Fenced c s.program (execute device [] (runBlocks s arrivals name segment)) where
  phases := by
    have called := (runBlocks_phases s arrivals name segment).sublist
      (execute_called device [] (runBlocks s arrivals name segment)).sublist
    exact (pairwise_map (f := Attempt.call)).1 called
  uniforms a x b split dispatch := by
    obtain ⟨before, st, after, a₁, a₂, b₁, b₂, -, rfl, rfl, succeeded, calls, -⟩ :=
      dispatch_at split dispatch
    have member : Call.uniforms s.program.digest { segment with seed := s.seed }.bytes
        s.parameters ∈ a₁.map Attempt.call := by
      rw [calls, blocksBefore, flatten_append, flatten_cons]
      exact mem_append_cons_self
    obtain ⟨u, there, eq, ok⟩ := exists_call succeeded member
    exact ⟨u, mem_append_left _ there, by rw [eq]; rfl, ok⟩
  written d inside e reads a y b split named := by
    obtain ⟨a₁, f, a₂, rfl, -, -, ⟨x, there, written⟩, -⟩ :=
      h.reads_at arrive split inside reads named
    exact ⟨x, mem_append_left _ there, written⟩
  between d inside e reads a x m y b split written named := by
    have split' : execute device [] (runBlocks s arrivals name segment) =
        (a ++ x :: m) ++ y :: b := by
      rw [split, append_assoc]
      rfl
    obtain ⟨a₁, f, a₂, eq, fence, ok, -, none⟩ := h.reads_at arrive split' inside reads named
    rcases middle_append (eq.symm) with ⟨rest, rfl, rfl⟩ | ⟨rest, rfl, tail⟩
    · exact ⟨f, mem_append_cons_self, fence, ok⟩
    · -- the other dispatch cannot stand at the fence or after it
      have late : x ∈ f :: a₂ := tail ▸ mem_append_cons_self
      rcases mem_cons.1 late with rfl | late
      · rw [fence] at written
        cases written
      · exact absurd written (none x late)
  ended a x b split failed phase other := by
    obtain ⟨done, block, rest, a₁, a₂, b₁, b₂, blocks, rfl, rfl, -, -, own, last⟩ :=
      execute_at split
    have member : x.call ∈ block :=
      own ▸ mem_map_of_mem mem_append_cons_self
    have there : block ∈ runBlocks s arrivals name segment :=
      blocks ▸ mem_append_cons_self
    rw [last (succeeds_eq_false failed), append_nil]
    rcases mem_runBlocks there with ⟨call, rfl, -⟩ | ⟨st, -, rfl⟩ | rfl
    · -- a block of one call
      have length := congrArg List.length own
      simp only [length_map, length_append, length_cons, length_nil] at length
      exact eq_nil_of_length_eq_zero (by omega)
    · obtain ⟨w, -, dispatch⟩ := mem_stageCalls arrive member
      rw [other] at dispatch
      cases dispatch
    · rw [phase_readbackCalls member] at phase
      exact absurd phase (lt_irrefl 3)
  staged a x b split failed dispatch := by
    obtain ⟨before, st, after, a₁, a₂, b₁, b₂, schedule, rfl, rfl, -, -, own, last⟩ :=
      dispatch_at split dispatch
    rw [last (succeeds_eq_false failed), append_nil]
    refine ⟨st, schedule ▸ mem_append_cons_self, fun y member => ?_⟩
    have called : y.call ∈ stageCalls arrivals s.program segment.size st :=
      own ▸ mem_map_of_mem (mem_append_right _ member)
    exact mem_stageCalls arrive called

end

/-! ## runs that succeed -/

structure Completed (c : Context) (p : Program) (size : UInt32) (t : Trace) : Prop where
  /-- every dispatch of the program was issued once -/
  dispatched : ((t.map Attempt.call).filter fun call => call.dispatched.isSome).Perm
    (p.dispatches.map (dispatchCall p size))
  distinct : (p.dispatches.map Dispatch.name).Nodup
  /-- after that and a fence, the buffers of the main dispatch were asked for, each once -/
  read : ∃ a f b, t = a ++ f :: b ∧ f.call = .fence ∧ f.failure = none ∧
    (∀ x ∈ a, x.call.phase < 3) ∧ b.map Attempt.call = (outputBuffers p).map (.readback p.digest)
  outputs : (outputBuffers p).map Buffer.symbol = (c.entry 0).buffers
  once : (outputBuffers p).Nodup

section
variable {s : ExecutionState} {arrivals : Arrivals} {p : Program} {name : String}
  {segment : Segment} {size : UInt32} {device : Device}

theorem filter_stageBlocks (i : Nat) (stages : List Stage) :
    ((stageBlocks arrivals p size i stages).flatten.filter fun call => call.dispatched.isSome) =
      (stages.flatMap arrivals).map (dispatchCall p size) := by
  induction stages generalizing i with
  | nil => rfl
  | cons st stages ih =>
    have all : ((arrivals st).map (dispatchCall p size)).filter
        (fun call => call.dispatched.isSome) = (arrivals st).map (dispatchCall p size) :=
      filter_eq_self.2 fun call member => by
        obtain ⟨w, -, rfl⟩ := mem_map.1 member
        rfl
    unfold stageBlocks
    rw [flatten_append, flatten_cons, filter_append, filter_append, all, ih,
      flatMap_cons, map_append]
    split <;> rfl

theorem arrivals_perm (arrive : ∀ st, (arrivals st).Perm st.dispatches) (stages : List Stage) :
    (stages.flatMap arrivals).Perm (stages.flatMap Stage.dispatches) := by
  induction stages with
  | nil => exact .refl _
  | cons st stages ih =>
    rw [flatMap_cons, flatMap_cons]
    exact (arrive st).append ih

theorem filter_runBlocks (s : ExecutionState) (arrivals : Arrivals) (name : String)
    (segment : Segment) :
    ((runBlocks s arrivals name segment).flatten.filter fun call => call.dispatched.isSome) =
      (s.program.schedule.flatMap arrivals).map (dispatchCall s.program segment.size) := by
  have none {calls : List Call} (h : ∀ call ∈ calls, call.phase ≠ 2) :
      calls.filter (fun call => call.dispatched.isSome) = [] :=
    filter_eq_nil_iff.2 fun call member some => by
      cases call <;> first | exact h _ member rfl | cases some
  rw [runBlocks_flatten, filter_append, filter_cons_of_neg (by nofun), filter_append,
    flatten_append, filter_append, filter_stageBlocks,
    none fun _ member => phase_uploadBlocks member ▸ nofun,
    none fun _ member => phase_readbackCalls member ▸ nofun, append_nil]
  exact append_nil _

theorem checkSize_isOk :
    (checkSize p size).isOk = true ↔
      size ≠ 0 ∧ ∀ d ∈ p.dispatches, (d.checkGrid size p.workgroup).isOk = true := by
  unfold checkSize
  by_cases none : size = 0
  · rw [if_pos none]
    exact ⟨nofun, fun h => absurd none h.1⟩
  · rw [if_neg none, and_iff_right none]
    induction p.dispatches with
    | nil => exact ⟨fun _ => nofun, fun _ => rfl⟩
    | cons d rest ih =>
      rw [List.forM, forall_mem_cons, ← ih]
      cases d.checkGrid size p.workgroup with
      | error e => exact ⟨nofun, nofun⟩
      | ok _ => exact ⟨fun h => ⟨rfl, h⟩, fun h => h.2⟩

theorem execute_last {blocks : List (List Call)} (block : List Call)
    (ok : Trace.succeeds (execute device [] blocks) = true) :
    ∃ b, execute device [] (blocks ++ [block]) = execute device [] blocks ++ b ∧
      b.map Attempt.call = block := by
  refine ⟨answers device (execute device [] blocks) block, ?_, map_call_answers _ _ _⟩
  rw [execute_append, if_pos ok, execute_singleton, nil_append]

theorem work_fenced
    (ok : Trace.succeeds (execute device [] (workBlocks s arrivals name segment)) = true) :
    ∃ a f, execute device [] (workBlocks s arrivals name segment) = a ++ [f] ∧ f.call = .fence := by
  have calls := map_call_execute ok
  have last : (workBlocks s arrivals name segment).flatten =
      (uploadBlocks s name segment.size ++
        [Call.uniforms s.program.digest { segment with seed := s.seed }.bytes s.parameters] ::
          stageBlocks arrivals s.program segment.size 0 s.program.schedule).flatten ++
              [.fence] := by
    unfold workBlocks stagedBlocks
    rw [← cons_append, ← append_assoc, flatten_append]
    rfl
  rw [last, map_eq_append_iff] at calls
  obtain ⟨a, fence, split, -, fenced⟩ := calls
  obtain ⟨f, rfl, called⟩ := map_eq_singleton_iff.1 fenced
  exact ⟨a, f, split, called⟩

theorem phase_work {x : Attempt} (h : x ∈ execute device [] (workBlocks s arrivals name segment)) :
    x.call.phase < 3 := by
  have member := (execute_called device [] (workBlocks s arrivals name segment)).subset
    (mem_map_of_mem h)
  unfold workBlocks stagedBlocks at member
  rw [flatten_append, flatten_cons] at member
  rcases mem_append.1 member with member | member
  · rw [phase_uploadBlocks member]
    exact Nat.zero_lt_succ _
  · rcases mem_cons.1 member with eq | member
    · rw [eq]
      exact Nat.lt_of_sub_eq_succ rfl
    · rw [phase_stageBlocks member]
      exact Nat.lt_of_sub_eq_succ rfl

/-- the work of a run succeeds if nothing but readbacks fails -/
theorem work_succeeds_iff :
    Trace.succeeds (execute device [] (workBlocks s arrivals name segment)) = true ↔
    ∀ x ∈ execute device [] (runBlocks s arrivals name segment), x.call.phase < 3 →
      x.failure = none := by
  constructor
  · intro ok x member early
    obtain ⟨b, split, read⟩ := execute_last (readbackCalls s.program) ok
    unfold runBlocks at member
    rw [split] at member
    rcases mem_append.1 member with work | late
    · exact succeeds_iff.1 ok x work
    · rw [phase_readbackCalls (read ▸ mem_map_of_mem late)] at early
      exact absurd early (lt_irrefl 3)
  · intro all
    refine succeeds_iff.2 fun x work => all x ?_ (phase_work work)
    unfold runBlocks
    rw [execute_append]
    exact mem_append_left _ work

theorem ready_iff : ready s size = true ↔ s.disposed = false ∧ size ≠ 0 ∧
    ∀ d ∈ s.program.dispatches, (d.checkGrid size s.program.workgroup).isOk = true := by
  unfold ready
  rw [Bool.and_eq_true, checkSize_isOk, Bool.not_eq_true', and_comm]

end

/-! ## compiled programs -/

section
variable {g : Graph} {roots : List Root} {o : Compile.Options} {c : Context}

theorem parsed_staged (built : g.Built) (parsed : g.parsed roots o = .ok c) :
    Staged c c.toProgram := by
  obtain ⟨done, l, k, all, perm⟩ := Compile.linked_of_parsed built.wellFormed parsed
  have falls : c.toProgram.schedule.Pairwise fun s t => t.depth < s.depth := by
    obtain ⟨-, -, d, -, rfl, -⟩ := Compile.parsed_ok parsed
    exact stages_falls (Compile.finished_falls d)
  constructor
  · intro w member d inside named
    obtain ⟨e, inside', rfl⟩ := Compile.exists_of_mem_dispatches perm member
    rw [k.distinct e inside' d inside named]
  · intro before st after schedule d inside e reads member
    obtain ⟨t, earlier, written⟩ := l.earlier k all perm falls schedule inside member reads
    refine ⟨⟨t, earlier, written⟩, fun here => ?_⟩
    -- the two stages would have the depth of the dispatch
    have level {t : Stage} (there : t ∈ before ++ st :: after)
        (member : (c.entry e).record ∈ t.dispatches) : (c.entry e).depth = t.depth :=
      (stages_level _ t (by rw [← schedule] at there; exact there)).2 _ member
    rw [schedule] at falls
    have apart := (pairwise_append.1 falls).2.2 t earlier st (.head _)
    have deep := level (mem_append_left _ earlier) written
    have deep' := level mem_append_cons_self here
    omega

theorem parsed_completed (built : g.Built) (parsed : g.parsed roots o = .ok c) {s : ExecutionState}
    (program : s.program = c.toProgram) {arrivals : Arrivals}
    (arrive : ∀ st, (arrivals st).Perm st.dispatches) {device : Device} {name : String}
    {segment : Segment}
    (ok : Trace.succeeds (execute device [] (workBlocks s arrivals name segment)) = true) :
    Completed c c.toProgram segment.size
      (execute device [] (runBlocks s arrivals name segment)) := by
  obtain ⟨done, l, k, -, perm⟩ := Compile.linked_of_parsed built.wellFormed parsed
  have buffered := (Compile.parsed_registered built.wellFormed parsed).buffered
  obtain ⟨b, split, read⟩ := execute_last (readbackCalls s.program) ok
  obtain ⟨a, f, work, fence⟩ := work_fenced ok
  have main : outputBuffers c.toProgram = c.buffers.filter (·.dispatch == (c.entry 0).name) := by
    rw [k.main.2]
    rfl
  have outputs : (outputBuffers c.toProgram).map Buffer.symbol = (c.entry 0).buffers := by
    unfold Compile.Entry.buffers
    rw [main, ← buffered.outputs 0 k.main.1, map_map]
    rfl
  constructor
  · have calls : (execute device [] (runBlocks s arrivals name segment)).map Attempt.call =
        (runBlocks s arrivals name segment).flatten := by
      unfold runBlocks
      rw [split, map_append, map_call_execute ok, read, flatten_append, flatten_singleton]
    rw [calls, filter_runBlocks, program]
    have whole : c.toProgram.schedule.flatMap Stage.dispatches = c.toProgram.dispatches :=
      stages_flatMap _
    exact (whole ▸ arrivals_perm arrive c.toProgram.schedule).map _
  · have named : c.toProgram.dispatches.map Dispatch.name = c.dispatches.map fun d =>
        (c.entry d).name := map_map
    rw [named]
    refine Nodup.map_on (fun d hd e he same => ?_) (perm.nodup_iff.2 nodup_range)
    exact k.distinct d (mem_range.1 (perm.mem_iff.1 hd)) e (mem_range.1 (perm.mem_iff.1 he)) same
  · refine ⟨a, f, b, ?_, fence, ?_, ?_, ?_⟩
    · unfold runBlocks
      rw [split, work, append_assoc]
      rfl
    · exact succeeds_iff.1 ok f (work ▸ mem_append_cons_self)
    · exact fun x member => phase_work (work ▸ mem_append_left _ member)
    · rw [read, program]
      rfl
  · exact outputs
  · refine Nodup.of_map Buffer.symbol ?_
    rw [outputs]
    exact Compile.nodup_buffers built parsed k.main.1

end

/-- **Runs are fenced.**  Nothing is asked of a device for a size that some dispatch does not fit.
Whatever the device answers, what a dispatch samples was written before it and before a fence; a
failure ends the run with its stage; a run that succeeds has issued every dispatch once, and after a
fence asked for the buffers of the main dispatch. -/
theorem runIn_fenced {g : Graph} (built : g.Built) {roots : List Root} {o : Compile.Options}
    {p : Program} (h : g.compile roots o = .ok p) :
    ∃ c, g.parsed roots o = .ok c ∧ p = c.toProgram ∧
      ∀ (s : ExecutionState) (arrivals : Arrivals) (name : String) (device : Device)
        (segment : Segment) result s' t, s.program = p → (∀ st, (arrivals st).Perm st.dispatches) →
        s.runIn arrivals name device segment = (result, s', t) →
        (segment.size = 0 ∨ (∃ d ∈ p.dispatches, (d.checkGrid segment.size p.workgroup).isOk =
          false) → t = []) ∧
        Fenced c p t ∧
        (result.isOk = true → Completed c p segment.size t) ∧
        (result.isOk = true ↔ (s.disposed = false ∧ segment.size ≠ 0 ∧
          ∀ d ∈ p.dispatches, (d.checkGrid segment.size p.workgroup).isOk = true) ∧
          ∀ x ∈ t, x.call.phase < 3 → x.failure = none) := by
  obtain ⟨c, parsed, rfl⟩ := Compile.compile_ok_iff.1 h
  refine ⟨c, parsed, rfl, fun s arrivals name device segment result s' t program arrive ran => ?_⟩
  have staged : Staged c s.program := program ▸ parsed_staged built parsed
  obtain ⟨trace, ok⟩ := runIn_eq s arrivals name device segment
  rw [ran] at trace ok
  dsimp only at trace ok
  rw [← program, ← ready_iff, ok, Bool.and_eq_true]
  cases begun : ready s segment.size with
  | false =>
    rw [begun, if_neg Bool.false_ne_true] at trace
    subst trace
    exact ⟨fun _ => rfl, fenced_nil _ _, fun h => absurd h.1 Bool.false_ne_true,
      fun h => ⟨h.1, nofun⟩, fun h => absurd h.1 Bool.false_ne_true⟩
  | true =>
    rw [begun, if_pos rfl] at trace
    subst trace
    refine ⟨fun refused => ?_, staged.fenced arrive device name segment, fun succeeded => ?_, ?_⟩
    · obtain ⟨-, some, fits⟩ := ready_iff.1 begun
      rcases refused with none | ⟨d, member, refused⟩
      · exact absurd none some
      · rw [fits d member] at refused
        cases refused
    · have completed := parsed_completed built parsed program arrive succeeded.2
      rwa [← program] at completed
    · rw [work_succeeds_iff]
      rfl

theorem execute_reliable (t : Trace) (blocks : List (List Call)) :
    Trace.succeeds (execute .reliable t blocks) = true := by
  have answered (t : Trace) (calls : List Call) :
      Trace.succeeds (answers .reliable t calls) = true := by
    induction calls generalizing t with
    | nil => rfl
    | cons call rest ih => exact ih _
  induction blocks generalizing t with
  | nil => rfl
  | cons block rest ih =>
    unfold execute
    rw [if_pos (answered t block), succeeds_append, answered t block, ih]
    rfl

/-- three stages, on a device that never fails -/
theorem runIn_fenced_raised :
    ∃ (p : Program) (c : Context) (result : Except RunError RunResult) (s' : ExecutionState)
      (t : Trace), raisedCache.compile [⟨"density", some 5⟩] ⟨[], some [], 0⟩ = .ok p ∧
      (⟨p, default, [], [], false⟩ : ExecutionState).runIn Stage.dispatches "first" .reliable
        ⟨⟨.zero, .zero, .zero⟩, .one, 16, default⟩ = (result, s', t) ∧
      c.entries.toList.map Compile.Entry.depth = [0, 2, 1] ∧ result.isOk = true ∧
      Fenced c p t ∧ Completed c p 16 t := by
  obtain ⟨c, parsed, depths, fits⟩ :
      ∃ c, raisedCache.parsed [⟨"density", some 5⟩] ⟨[], some [], 0⟩ = .ok c ∧
        c.entries.toList.map Compile.Entry.depth = [0, 2, 1] ∧
        ∀ d < c.entries.size,
            ((c.entry d).record.checkGrid 16 c.toProgram.workgroup).isOk = true := by
    decide +kernel
  have compiled : raisedCache.compile [⟨"density", some 5⟩] ⟨[], some [], 0⟩ = .ok c.toProgram :=
    Compile.compile_ok_iff.2 ⟨c, parsed, rfl⟩
  obtain ⟨-, -, -, -, perm⟩ := Compile.linked_of_parsed built_raisedCache.wellFormed parsed
  obtain ⟨c', parsed', -, holds⟩ := runIn_fenced built_raisedCache compiled
  cases parsed.symm.trans parsed'
  let s : ExecutionState := ⟨c.toProgram, default, [], [], false⟩
  let segment : Segment := ⟨⟨.zero, .zero, .zero⟩, .one, 16, default⟩
  rcases ran : s.runIn Stage.dispatches "first" .reliable segment with ⟨result, s', t⟩
  obtain ⟨-, fenced, completed, succeeds⟩ :=
    holds s Stage.dispatches "first" .reliable segment result s' t rfl (fun _ => .refl _) ran
  have ok : result.isOk = true := by
    refine succeeds.2 ⟨⟨rfl, by decide, fun w member => ?_⟩, fun x member _ => ?_⟩
    · obtain ⟨d, inside, rfl⟩ := Compile.exists_of_mem_dispatches perm member
      exact fits d inside
    · have trace := (runIn_eq s Stage.dispatches "first" .reliable segment).1
      rw [ran] at trace
      dsimp only at trace
      split at trace
      · rw [trace] at member
        exact succeeds_iff.1 (execute_reliable _ _) x member
      · rw [trace] at member
        cases member
  exact ⟨c.toProgram, c, result, s', t, compiled, ran, depths, ok, fenced, completed ok⟩

end Terrain.Pipeline
