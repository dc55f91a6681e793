import Terrain.Proofs.Ledgers

/-!
# What devices hold

Calls of a generator, made one after another.  Whatever fails on the way, every program that was put
on a device is freed there once, and not used then.

* `Use`                a call of a generator, whose builder may use the generator too;
* `Traced`             what every call keeps: all calls to devices belong to states, every state has
                       its ledger, and only the state in effect is not disposed;
* `Advances`           what a call does to a generator;
* `history_released`   whatever was called, nothing is uploaded twice, leaked, freed twice or used
                       when it was freed.
-/

namespace Terrain.Pipeline

open List

variable {p : Program} {s : ExecutionState}

/-! ## generators -/

structure Traced (g : Generator) : Prop where
  known : ∀ e ∈ g.log, e.state < g.states.size
  ledger : ∀ id s, g.states[id]? = some s → Ledger s (Event.through g.log id)
  held : ∀ id, g.current = some id → ∃ s p, g.states[id]? = some s ∧ s.disposed = false ∧
    g.program = some p ∧ s.program.digest = p.digest
  live : ∀ id s, g.states[id]? = some s → s.disposed = false → g.current = some id
  closed : g.closed = true → g.current = none

/-- the states of a generator stay, with their digests; once disposed, they stay so and
make no calls -/
def Onward (g g' : Generator) : Prop :=
  ∀ id s, g.states[id]? = some s → ∃ s', g'.states[id]? = some s' ∧
    s'.program.digest = s.program.digest ∧
    (s.disposed = true → s'.disposed = true ∧ Event.through g'.log id = Event.through g.log id)

section
variable {g g' g'' : Generator} {s s' : ExecutionState} {id : Nat}

theorem onward_same (states : g'.states = g.states) (log : g'.log = g.log) : Onward g g' := by
  intro id s found
  exact ⟨s, states ▸ found, rfl, fun gone => ⟨gone, by rw [log]⟩⟩

theorem Onward.trans (h : Onward g g') (h' : Onward g' g'') : Onward g g'' := by
  intro id s found
  obtain ⟨s', found', digest, gone⟩ := h id s found
  obtain ⟨s'', found'', digest', gone'⟩ := h' id s' found'
  refine ⟨s'', found'', digest'.trans digest, fun disposed => ?_⟩
  obtain ⟨disposed', calls⟩ := gone disposed
  obtain ⟨disposed'', calls'⟩ := gone' disposed'
  exact ⟨disposed'', calls'.trans calls⟩

structure Advances (g g' : Generator) : Prop where
  traced : Traced g'
  onward : Onward g g'
  closed : g.closed = true → g'.closed = true

theorem Traced.refl (h : Traced g) : Advances g g := ⟨h, onward_same rfl rfl, id⟩

theorem Advances.trans (h : Advances g g') (h' : Advances g' g'') : Advances g g'' :=
  ⟨h'.traced, h.onward.trans h'.onward, fun closed => h'.closed (h.closed closed)⟩

/-- other settings; the program may change to one of another digest where no state is in effect -/
theorem Traced.settings (h : Traced g) (states : g'.states = g.states)
    (current : g'.current = g.current) (log : g'.log = g.log)
    (program : g.current = none ∨
      ∀ p, g.program = some p → ∃ p', g'.program = some p' ∧ p'.digest = p.digest)
    (closed : g.closed = true → g'.closed = true)
    (shut : g'.closed = true → g'.current = none) :
    Advances g g' where
  onward := onward_same states log
  closed := closed
  traced := {
    known := by
      rw [log, states]
      exact h.known
    ledger := by
      rw [log, states]
      exact h.ledger
    held := by
      rw [states, current]
      intro id held
      obtain ⟨s, p, found, live, of, digest⟩ := h.held id held
      rcases program with idle | kept
      · cases idle.symm.trans held
      · obtain ⟨p', of', digest'⟩ := kept p of
        exact ⟨s, p', found, live, of', digest.trans digest'.symm⟩
    live := by
      rw [states, current]
      exact h.live
    closed := shut }

/-! ## a state changes -/

theorem through_append (log : List Event) (calls : List (String × Attempt)) (id i : Nat) :
    Event.through (log ++ eventsOf id calls) i =
      Event.through log i ++ if id = i then eventsOf id calls else [] := by
  unfold Event.through
  rw [filter_append]
  congr 1
  split
  · next same =>
    refine filter_eq_self.2 fun e member => ?_
    obtain ⟨c, -, rfl⟩ := mem_map.1 member
    exact beq_iff_eq.2 same
  · next other =>
    refine filter_eq_nil_iff.2 fun e member => ?_
    obtain ⟨c, -, rfl⟩ := mem_map.1 member
    exact fun eq => other (beq_iff_eq.1 eq)

theorem states_update (found : g.states[id]? = some s) (calls : List (String × Attempt)) (i : Nat) :
    ((g.setState id s').record id calls).states[i]? = if id = i then some s' else g.states[i]? := by
  show (g.states.setIfInBounds id s')[i]? = _
  rw [Array.getElem?_setIfInBounds, if_pos (Array.getElem?_eq_some_iff.1 found).1]

theorem log_update (calls : List (String × Attempt)) :
    ((g.setState id s').record id calls).log = g.log ++ eventsOf id calls := rfl

theorem onward_update (found : g.states[id]? = some s)
    (digest : s'.program.digest = s.program.digest) {calls : List (String × Attempt)}
    (gone : s.disposed = true → s'.disposed = true ∧ calls = []) :
    Onward g ((g.setState id s').record id calls) := by
  intro i t there
  rw [states_update found, log_update, through_append]
  split
  · next same =>
    subst same
    cases found.symm.trans there
    refine ⟨s', rfl, digest, fun disposed => ?_⟩
    obtain ⟨disposed', none⟩ := gone disposed
    rw [none]
    exact ⟨disposed', append_nil _⟩
  · exact ⟨t, there, rfl, fun disposed => ⟨disposed, append_nil _⟩⟩

section
variable (h : Traced g) (found : g.states[id]? = some s) {calls : List (String × Attempt)}
  (ledger : Ledger s' (Event.through g.log id ++ eventsOf id calls))
include h found

theorem Traced.known_update (s' : ExecutionState) (calls : List (String × Attempt)) :
    ∀ e ∈ ((g.setState id s').record id calls).log,
      e.state < ((g.setState id s').record id calls).states.size := by
  have size : ((g.setState id s').record id calls).states.size = g.states.size :=
    Array.size_setIfInBounds
  rw [size]
  refine forall_mem_append.2 ⟨h.known, fun e member => ?_⟩
  obtain ⟨c, -, rfl⟩ := mem_map.1 member
  exact (Array.getElem?_eq_some_iff.1 found).1

include ledger

theorem Traced.ledger_update : ∀ i t, ((g.setState id s').record id calls).states[i]? = some t →
    Ledger t (Event.through ((g.setState id s').record id calls).log i) := by
  intro i t there
  rw [states_update found] at there
  rw [log_update, through_append]
  split at there
  · next same =>
    cases there
    subst same
    rw [if_pos rfl]
    exact ledger
  · next other =>
    rw [if_neg other, append_nil]
    exact h.ledger i t there

theorem Traced.update (digest : s'.program.digest = s.program.digest)
    (disposed : s'.disposed = s.disposed) (gone : s.disposed = true → calls = []) :
    Advances g ((g.setState id s').record id calls) where
  onward := onward_update found digest fun was => ⟨disposed.trans was, gone was⟩
  closed closed := closed
  traced := {
    known := h.known_update found s' calls
    ledger := h.ledger_update found ledger
    held := by
      intro i current
      obtain ⟨t, p, there, live, of, same⟩ := h.held i current
      rw [states_update found]
      split
      · next eq =>
        subst eq
        cases found.symm.trans there
        exact ⟨s', p, rfl, disposed.trans live, of, digest.trans same⟩
      · exact ⟨t, p, there, live, of, same⟩
    live := by
      intro i t there live
      rw [states_update found] at there
      split at there
      · next eq =>
        cases there
        subst eq
        exact h.live id s found (disposed.symm.trans live)
      · exact h.live i t there live
    closed := h.closed }

end

theorem Traced.setState (h : Traced g) (found : g.states[id]? = some s)
    (digest : s'.program.digest = s.program.digest) (uploads : s'.uploads = s.uploads)
    (disposed : s'.disposed = s.disposed) : Advances g (g.setState id s') := by
  have ledger := (h.ledger id s found).same digest uploads disposed
  have none : g.setState id s' = (g.setState id s').record id [] := by
    unfold Generator.record
    rw [map_nil, append_nil]
  rw [none]
  refine h.update found ?_ digest disposed fun _ => rfl
  show Ledger s' (_ ++ [])
  rw [append_nil]
  exact ledger

/-! ## calls, one by one -/

theorem state?_eq (current : g.current = some id) (found : g.states[id]? = some s) :
    g.state? = some s := by
  unfold Generator.state?
  rw [current]
  exact found

theorem Traced.disposeCurrent (h : Traced g) (device : String → Device) :
    Advances g (g.disposeCurrent device).2 ∧ (g.disposeCurrent device).2.current = none := by
  cases current : g.current with
  | none =>
    have idle : g.disposeCurrent device = ([], { g with current := none }) := by
      unfold Generator.disposeCurrent
      rw [current]
    rw [idle]
    exact ⟨h.settings rfl current.symm rfl (.inl current) id fun _ => rfl, rfl⟩
  | some id =>
    obtain ⟨s, p, found, live, -⟩ := h.held id current
    have eq : (g.disposeCurrent device).2 =
        { (g.setState id (s.dispose device).1).record id (s.dispose device).2 with
            current := none } := by
      unfold Generator.disposeCurrent
      rw [state?_eq current found, current]
    have gone : (s.dispose device).1.disposed = true := by
      unfold ExecutionState.dispose
      rw [if_neg (live ▸ Bool.false_ne_true)]
    have digest : (s.dispose device).1.program.digest = s.program.digest := by
      unfold ExecutionState.dispose
      rw [if_neg (live ▸ Bool.false_ne_true)]
    have ledger := (h.ledger id s found).dispose live device id
    rw [eq]
    refine ⟨⟨⟨h.known_update found _ _, h.ledger_update found ledger, nofun, ?_, fun _ => rfl⟩,
      onward_update found digest fun was => ?_, fun closed => closed⟩, rfl⟩
    · intro i t there live'
      have there := (states_update found (s.dispose device).2 i).symm.trans there
      split at there
      · cases there
        cases gone.symm.trans live'
      · next other =>
          exact absurd (Option.some.inj (current.symm.trans (h.live i t there live'))) other
    · cases live.symm.trans was

theorem Traced.push (h : Traced g) (idle : g.current = none) (isOpen : g.closed = false)
    (program : g.program = some p) (of : s.program = p) (live : s.disposed = false)
    (none : s.uploads = []) :
    Advances g { g with states := g.states.push s, current := some g.states.size } := by
  -- no call was made through a state that was not there
  have unused : Event.through g.log g.states.size = [] :=
    filter_eq_nil_iff.2 fun e member eq =>
      lt_irrefl _ (beq_iff_eq.1 eq ▸ h.known e member)
  refine ⟨⟨?_, ?_, ?_, ?_, ?_⟩, ?_, id⟩
  · intro e member
    rw [Array.size_push]
    exact Nat.lt_succ_of_lt (h.known e member)
  · intro i t there
    rw [Array.getElem?_push] at there
    split at there
    · next eq =>
      cases there
      rw [eq, unused]
      exact ledger_new live none
    · exact h.ledger i t there
  · rintro i ⟨⟩
    exact ⟨s, p, Array.getElem?_push_size, live, program, congrArg _ of⟩
  · intro i t there live'
    rw [Array.getElem?_push] at there
    split at there
    · next eq => rw [eq]
    · cases idle.symm.trans (h.live i t there live')
  · intro closed
    cases isOpen.symm.trans closed
  · intro i t there
    have ne : i ≠ g.states.size := ne_of_lt (Array.getElem?_eq_some_iff.1 there).1
    refine ⟨t, ?_, rfl, fun gone => ⟨gone, rfl⟩⟩
    rw [Array.getElem?_push, if_neg ne]
    exact there

theorem create_fields {seed : Seed} {values : Bindings}
    (created : ExecutionState.create p seed values = .ok s) :
    s.program = p ∧ s.disposed = false ∧ s.uploads = [] := by
  unfold ExecutionState.create at created
  cases packed : p.parameterData values with
  | error e =>
    rw [packed] at created
    cases created
  | ok data =>
    rw [packed] at created
    cases created
    exact ⟨rfl, rfl, rfl⟩

theorem Traced.state (h : Traced g) : Advances g g.state.2 := by
  unfold Generator.state
  cases isOpen : g.closed with
  | true => exact h.refl
  | false =>
    cases program : g.program with
    | none => exact h.refl
    | some p =>
      cases current : g.current with
      | some id => exact h.refl
      | none =>
        dsimp only
        cases created : ExecutionState.create p g.seed g.values with
        | error e => exact h.refl
        | ok s =>
          obtain ⟨of, live, none⟩ := create_fields created
          have made := h.push current isOpen program of live none
          rw [program, isOpen] at made
          exact made

theorem Traced.runState (h : Traced g) (id : Nat) (name : String) (device : Device)
    (segment : Segment) : Advances g (g.runState id name device segment).2 := by
  unfold Generator.runState
  cases found : g.states[id]? with
  | none => exact h.refl
  | some s =>
    have ran := run_ran s name device segment
    refine h.update found ((h.ledger id s found).run ran id) (congrArg _ ran.same.program)
      ran.same.disposed fun gone => ?_
    rw [ran.disposed gone]
    rfl

theorem Traced.run (h : Traced g) (name : String) (device : Device) (segment : Segment) :
    Advances g (g.run name device segment).2 := by
  have made := h.state
  unfold Generator.run
  rcases result : g.state with ⟨answer, g'⟩
  rw [result] at made
  cases answer with
  | error e => exact made
  | ok id => exact made.trans (made.traced.runState id name device segment)

theorem refresh_fields {values : Bindings} (refreshed : s.refresh p values = .ok s') :
    s'.program = p ∧ s'.uploads = s.uploads ∧ s'.disposed = s.disposed := by
  unfold ExecutionState.refresh at refreshed
  cases packed : p.parameterData values with
  | error e =>
    rw [packed] at refreshed
    cases refreshed
  | ok data =>
    rw [packed] at refreshed
    cases refreshed
    exact ⟨rfl, rfl, rfl⟩

theorem Traced.refreshState (h : Traced g)
    (digest : ∀ id s, g.current = some id → g.states[id]? = some s → p.digest = s.program.digest) :
    Advances g (g.refreshState p).2 := by
  unfold Generator.refreshState
  split
  · next id s current state =>
    have found : g.states[id]? = some s := by
      unfold Generator.state? at state
      rw [current] at state
      exact state
    cases refreshed : s.refresh p g.values with
    | error e => exact h.refl
    | ok s' =>
      obtain ⟨of, uploads, disposed⟩ := refresh_fields refreshed
      exact h.setState found (of ▸ digest id s current found) uploads disposed
  · exact h.refl

theorem Traced.setParameter (h : Traced g) (name : String) (v : Value) :
    Advances g (g.setParameter name v).2 := by
  let bound : Generator := { g with values := Generator.bind g.values name v }
  have binds : Advances g bound :=
    h.settings rfl rfl rfl (.inr fun p program => ⟨p, program, rfl⟩) id h.closed
  cases checked : g.checkParameter name v with
  | error e =>
    unfold Generator.setParameter
    rw [checked]
    exact h.refl
  | ok _ =>
    rw [setParameter_eq checked]
    cases state : g.state? with
    | none => exact binds
    | some s =>
      refine binds.trans (binds.traced.refreshState fun id s' current found => ?_)
      cases (state?_eq (g := g) current found).symm.trans state
      rfl

theorem Traced.setSeed (h : Traced g) (seed : Seed) : Advances g (g.setSeed seed) := by
  have seeds : Advances g { g with seed } :=
    h.settings rfl rfl rfl (.inr fun p program => ⟨p, program, rfl⟩) id h.closed
  cases current : g.current with
  | none =>
    rw [setSeed_of_idle seed current]
    exact seeds
  | some id =>
    obtain ⟨s, p, found, -⟩ := h.held id current
    rw [setSeed_of_state seed current (state?_eq current found)]
    exact seeds.trans (seeds.traced.setState found rfl rfl rfl)

theorem disposeCurrent_settings (g : Generator) (device : String → Device)
    (program : Option Program) (closed : Bool) :
    ({ g with program, closed }.disposeCurrent device).2 =
      { (g.disposeCurrent device).2 with program, closed } := by
  have same : ({ g with program, closed } : Generator).state? = g.state? := rfl
  unfold Generator.disposeCurrent
  rw [same]
  cases g.current with
  | none => rfl
  | some id =>
    cases g.state? with
    | none => rfl
    | some s => rfl

section
variable (h : Traced g) (device : String → Device)
include h device

theorem Traced.disposeWith (program : Option Program)
    {closed : Bool} (kept : g.closed = true → closed = true) :
    Advances g ({ g with program, closed }.disposeCurrent device).2 := by
  obtain ⟨disposes, idle⟩ := h.disposeCurrent device
  rw [disposeCurrent_settings]
  refine disposes.trans
    (disposes.traced.settings rfl rfl rfl (.inl idle) (fun was => kept ?_) fun _ => idle)
  exact (disposeCurrent_fields g device).2.2.2 ▸ was

theorem Traced.close :
    Advances g (g.close device).2 ∧ (g.close device).2.closed = true := by
  unfold Generator.close
  cases closed : g.closed with
  | true => exact ⟨h.refl, closed⟩
  | false =>
    refine ⟨h.disposeWith device g.program fun _ => rfl, ?_⟩
    exact (disposeCurrent_fields { g with closed := true } device).2.2.2

theorem Traced.install (p : Program) : Advances g (g.install device p).2 := by
  unfold Generator.install
  by_cases closed : g.closed = true
  · rw [if_pos closed]
    exact h.refl
  · rw [if_neg closed]
    extract_lets changed g'
    by_cases other : changed = true
    · rw [if_pos other]
      exact h.disposeWith device (some p) id
    · rw [if_neg other]
      show Advances g (g'.refreshState p).2
      have same : ∀ q, g.program = some q → p.digest = q.digest := by
        intro q program
        refine Eq.symm (Classical.byContradiction fun differ => other ?_)
        simp only [changed]
        rw [program]
        exact decide_eq_true differ
      have programmed : Advances g g' :=
        h.settings rfl rfl rfl (.inr fun q program => ⟨p, rfl, same q program⟩) id h.closed
      refine programmed.trans (programmed.traced.refreshState fun id s current found => ?_)
      obtain ⟨s', q, found', -, program, digest⟩ := h.held id current
      cases found.symm.trans found'
      exact (same q program).trans digest.symm

end

theorem advances_rebuild (device : String → Device)
    {build : Generator → Generator.Built × Generator} (isOpen : ¬ g.closed = true)
    (built : Traced (build g).2) :
    Advances (build g).2 (g.rebuild device build).2 := by
  unfold Generator.rebuild
  rw [if_neg isOpen]
  rcases eq : build g with ⟨made, g'⟩
  rw [eq] at built
  dsimp only
  cases Generator.compileBuilt { g.options with bindings := g.values } made with
  | error e => exact built.refl
  | ok p =>
    have keeps : Advances g' (g'.keep p) :=
      built.settings rfl rfl rfl (.inr fun q program => ⟨q, program, rfl⟩) id built.closed
    exact keeps.trans (keeps.traced.install device p)

theorem Traced.rebuild (h : Traced g) (device : String → Device)
    {build : Generator → Generator.Built × Generator} (builds : Advances g (build g).2) :
    Advances g (g.rebuild device build).2 := by
  by_cases closed : g.closed = true
  · unfold Generator.rebuild
    rw [if_pos closed]
    exact h.refl
  · exact builds.trans (advances_rebuild device closed builds.traced)

end

/-! ## histories -/

inductive Use where
  | plain (op : Operation)
  | rebuild (inside : List Operation) (built : Generator.Built) (device : String → Device)

namespace Use

def apply (g : Generator) : Use → Generator
  | plain op => (op.apply g).2
  | rebuild inside built device => (g.rebuild device fun g => (built, g.after inside)).2

def closes : Use → Bool
  | plain op => op.closes
  | rebuild inside _ _ => inside.any Operation.closes

end Use

def Generator.afterUses (g : Generator) (uses : List Use) : Generator := uses.foldl Use.apply g

section
variable {g : Generator}

section
variable (h : Traced g)
include h

theorem Traced.apply (op : Operation) : Advances g (op.apply g).2 := by
  cases op with
  | rebuild built device => exact h.rebuild device h.refl
  | state => exact h.state
  | setParameter name v => exact h.setParameter name v
  | setSeed seed => exact h.setSeed seed
  | run name device segment => exact h.run name device segment
  | runState id name device segment => exact h.runState id name device segment
  | close device => exact (h.close device).1

theorem Traced.after (ops : List Operation) : Advances g (g.after ops) := by
  induction ops generalizing g with
  | nil => exact h.refl
  | cons op ops ih => exact (h.apply op).trans (ih (h.apply op).traced)

theorem Traced.use (use : Use) : Advances g (use.apply g) := by
  cases use with
  | plain op => exact h.apply op
  | rebuild inside built device => exact h.rebuild device (h.after inside)

theorem Traced.afterUses (uses : List Use) : Advances g (g.afterUses uses) := by
  induction uses generalizing g with
  | nil => exact h.refl
  | cons use uses ih => exact (h.use use).trans (ih (h.use use).traced)

theorem Traced.closed_apply {op : Operation} (closes : op.closes = true) :
    (op.apply g).2.closed = true := by
  cases op with
  | close device => exact (h.close device).2
  | _ => cases closes

theorem Traced.closed_after {ops : List Operation}
    (closes : ops.any Operation.closes = true) : (g.after ops).closed = true := by
  induction ops generalizing g with
  | nil => cases closes
  | cons op ops ih =>
    have step := h.apply op
    rw [any_cons, Bool.or_eq_true] at closes
    rcases closes with first | later
    · exact (step.traced.after ops).closed (h.closed_apply first)
    · exact ih step.traced later

theorem Traced.closed_use {use : Use} (closes : use.closes = true) :
    (use.apply g).closed = true := by
  cases use with
  | plain op => exact h.closed_apply closes
  | rebuild inside built device =>
    by_cases closed : g.closed = true
    · exact (h.use (.rebuild inside built device)).closed closed
    · exact (advances_rebuild device closed (h.after inside).traced).closed (h.closed_after closes)

theorem Traced.closed_afterUses {uses : List Use} {use : Use} (member : use ∈ uses)
    (closes : use.closes = true) : (g.afterUses uses).closed = true := by
  induction uses generalizing g with
  | nil => cases member
  | cons first uses ih =>
    have step := h.use first
    rcases mem_cons.1 member with rfl | member
    · exact (step.traced.afterUses uses).closed (h.closed_use closes)
    · exact ih step.traced member

end

theorem traced_create (options : Compile.Options) (seed : Seed) (values : Bindings)
    (store : Option MemoryStore) : Traced (Generator.create options seed values store) where
  known := nofun
  ledger _ _ found := by cases found
  held := nofun
  live _ _ found := by cases found
  closed := nofun

end

/-- a device holds the program of a state: an upload through the state succeeded -/
def Holds (log : List Event) (id : Nat) (name : String) : Prop :=
  ∃ size, 0 < uploadCount log id ⟨name, size⟩

/-- the calls through a state, as devices see them -/
structure Accounted (log : List Event) (id : Nat) (s : ExecutionState) : Prop where
  /-- no upload is made again -/
  once : ∀ u, uploadCount log id u ≤ 1
  /-- as long as the state is not disposed, nothing is freed -/
  kept : s.disposed = false → ∀ name, releaseCount log id name = 0
  /-- then every device that holds the program is told once to free it -/
  freed : s.disposed = true → ∀ name, Holds log id name → releaseCount log id name = 1
  /-- and no other device is -/
  others : ∀ name, ¬ Holds log id name → releaseCount log id name = 0
  /-- all that is uploaded and freed is the program of the state -/
  digest : ∀ e ∈ Event.through log id, ∀ d, e.attempt.call.held = some d → d = s.program.digest
  /-- what is freed is not used again -/
  last : ∀ before after, Event.through log id = before ++ after →
    (∃ e ∈ before, e.frees = true) → ∀ e ∈ after, e.frees = true

theorem holds_iff {log : List Event} {id : Nat} {name : String} :
    Holds log id name ↔ name ∈ holders (Event.through log id) := by
  unfold Holds uploadCount
  rw [mem_holders]
  refine exists_congr fun size => ?_
  rw [← count_filterMap, count_pos_iff]

theorem Ledger.accounted {log : List Event} {id : Nat} (h : Ledger s (Event.through log id)) :
    Accounted log id s where
  once u := by
    unfold uploadCount
    rw [← count_filterMap]
    exact nodup_iff_count.1 h.once u
  kept live name := h.kept live name
  freed gone name holds := by
    unfold releaseCount
    rw [h.freed gone]
    exact count_eq_one_of_mem (nodup_eraseDups _) (holds_iff.1 holds)
  others name free := by
    unfold releaseCount
    cases gone : s.disposed with
    | false => exact h.kept gone name
    | true =>
      rw [h.freed gone]
      exact count_eq_zero.2 fun there => free (holds_iff.2 there)
  digest e member d holds := h.held member holds
  last before after split frees := by
    obtain ⟨e, member, frees⟩ := frees
    exact h.last split member frees

/-- **What devices hold is freed once, and not used then.**  After any calls of a generator,
whichever of the calls to devices failed: the calls through each state are accounted for; a state
that is not disposed is the one in effect, of the structure in effect; a state that is disposed
makes no call again; and once the generator is closed every device that holds anything was told
to free it. -/
theorem history_released (options : Compile.Options) (seed : Seed) (values : Bindings)
    (store : Option MemoryStore) (uses : List Use) :
    let g := (Generator.create options seed values store).afterUses uses
    (∀ e ∈ g.log, e.state < g.states.size) ∧
      (∀ id s, g.states[id]? = some s → Accounted g.log id s ∧
        (s.disposed = false ↔ g.current = some id) ∧
        (s.disposed = false → g.closed = false ∧ ∃ p, g.program = some p ∧
          p.digest = s.program.digest)) ∧
      (∀ more id s, g.states[id]? = some s → s.disposed = true →
        Event.through (g.afterUses more).log id = Event.through g.log id) ∧
      ((∃ use ∈ uses, use.closes = true) →
        ∀ id name, Holds g.log id name → releaseCount g.log id name = 1) := by
  intro g
  have start := traced_create options seed values store
  have traced : Traced g := (start.afterUses uses).traced
  refine ⟨traced.known, fun id s found => ⟨(traced.ledger id s found).accounted, ?_, ?_⟩, ?_, ?_⟩
  · refine ⟨traced.live id s found, fun current => ?_⟩
    obtain ⟨s', -, found', live, -⟩ := traced.held id current
    cases found.symm.trans found'
    exact live
  · intro live
    have current := traced.live id s found live
    obtain ⟨s', p, found', -, program, digest⟩ := traced.held id current
    cases found.symm.trans found'
    refine ⟨Bool.eq_false_iff.2 fun closed => ?_, p, program, digest.symm⟩
    cases (traced.closed closed).symm.trans current
  · intro more id s found gone
    obtain ⟨s', -, -, calls⟩ := (traced.afterUses more).onward id s found
    exact (calls gone).2
  · rintro ⟨use, member, closes⟩ id name ⟨size, uploaded⟩
    have closed : g.closed = true := start.closed_afterUses member closes
    obtain ⟨e, there, -⟩ := List.countP_pos_iff.1 uploaded
    obtain ⟨called, of⟩ := List.mem_filter.1 there
    have bound : id < g.states.size := beq_iff_eq.1 of ▸ traced.known e called
    have found : g.states[id]? = some g.states[id] := Array.getElem?_eq_getElem bound
    have gone : g.states[id].disposed = true := by
      cases gone : g.states[id].disposed with
      | true => rfl
      | false => cases (traced.closed closed).symm.trans (traced.live id _ found gone)
    exact (traced.ledger id _ found).accounted.freed gone name ⟨size, uploaded⟩

/-- a device that fails to free and to dispatch -/
def unsteady : Device := fun _ call =>
  match call with
  | .dispatch _ _ _ | .release _ => some "lost"
  | _ => none

def full : Device := fun _ call =>
  match call with
  | .upload _ _ => some "full"
  | _ => none

def segmentOf (size : UInt32) : Segment := ⟨⟨.zero, .zero, .zero⟩, .one, size, default⟩

/-- two sizes on one device, which then fails, a device that takes nothing, another structure, and a
run of the state that was disposed -/
def releaseHistory : List Use :=
  [.plain (.rebuild ⟨scaledConstant, .ok [⟨"density", some 3⟩]⟩ fun _ => .reliable),
    .plain (.run "first" .reliable (segmentOf 2)),
    .plain (.run "first" unsteady (segmentOf 3)),
    .plain (.run "first" .reliable (segmentOf 2)),
    .plain (.run "second" full (segmentOf 2)),
    .plain (.rebuild ⟨scaledConstant, .ok [⟨"density", some 2⟩]⟩ fun _ => unsteady),
    .plain (.runState 0 "first" .reliable (segmentOf 2)),
    .plain (.run "second" .reliable (segmentOf 2)),
    .rebuild [.close fun _ => unsteady] ⟨scaledConstant, .ok []⟩ fun _ => .reliable]

theorem uploads_releaseHistory :
    let log := ((Generator.create ⟨[], some [], 0⟩ default [] none).afterUses releaseHistory).log
    0 < uploadCount log 0 ⟨"first", 3⟩ ∧ 0 < uploadCount log 1 ⟨"second", 2⟩ ∧
      (holders (Event.through log 0)).contains "second" = false := by
  decide +kernel

theorem history_released_shared :
    let g := (Generator.create ⟨[], some [], 0⟩ default [] none).afterUses releaseHistory
    Holds g.log 0 "first" ∧ releaseCount g.log 0 "first" = 1 ∧ ¬ Holds g.log 0 "second" ∧
      Holds g.log 1 "second" ∧ releaseCount g.log 1 "second" = 1 := by
  obtain ⟨first, second, other⟩ := uploads_releaseHistory
  obtain ⟨-, -, -, released⟩ := history_released ⟨[], some [], 0⟩ default [] none releaseHistory
  have released := released ⟨.rebuild [.close fun _ => unsteady] ⟨scaledConstant, .ok []⟩ fun _ =>
    .reliable, by simp [releaseHistory], rfl⟩
  refine ⟨⟨3, first⟩, released 0 "first" ⟨3, first⟩, fun holds => ?_, ⟨2, second⟩,
    released 1 "second" ⟨2, second⟩⟩
  rw [List.contains_iff_mem.2 (holds_iff.1 holds)] at other
  cases other

end Terrain.Pipeline
