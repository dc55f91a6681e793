import Terrain.Pipeline.Generator
import Terrain.Proofs.Calls
import Terrain.Proofs.Packing

/-!
# Histories of a generator

Calls of a generator made one after another.  A rebuild stores the new program before the state in
effect is packed anew, and a parameter is bound before; that neither leaves a half-made change rests
on a fact that every call keeps: the program in effect can be packed under the values in effect.

* `Operation`          a call; `Generator.after` is the generator after a list of them;
* `InEffect`           a state agrees with the generator;
* `Ordered`            what every call keeps;
* `history_ordered`    whatever was called, the state in effect agrees with the generator, a state
                       is there unless there is no program or the generator is closed, and a rebuild
                       or a binding that fails changes nothing.
-/

namespace Terrain.Pipeline

open List

/-! ## calls -/

inductive Operation where
  | rebuild (built : Generator.Built) (device : String → Device)
  | state
  | setParameter (name : String) (v : Value)
  | setSeed (seed : Seed)
  | run (name : String) (device : Device) (segment : Segment)
  /-- runs a state that was handed out earlier -/
  | runState (id : Nat) (name : String) (device : Device) (segment : Segment)
  | close (device : String → Device)

def failure {ε α : Type} : Except ε α → Option ε
  | .error e => some e
  | .ok _ => none

/-- why a call fails, if it does, and the generator after it -/
def outcome {α : Type} (r : Except PipelineError α × Generator) :
    Option PipelineError × Generator :=
  (failure r.1, r.2)

namespace Operation

def apply (g : Generator) : Operation → Option PipelineError × Generator
  | rebuild built device => outcome (g.rebuild device fun g => (built, g))
  | state => outcome g.state
  | setParameter name v => outcome (g.setParameter name v)
  | setSeed seed => (none, g.setSeed seed)
  | run name device segment => outcome (g.run name device segment)
  | runState id name device segment => outcome (g.runState id name device segment)
  | close device => outcome (g.close device)

/-- a builder makes its graph node by node, and no more of them than a word has addresses for slots
of sixteen bytes -/
def Sound : Operation → Prop
  | rebuild built _ => built.graph.Built ∧ built.graph.size ≤ 2 ^ 59
  | _ => True

/-- a call that puts something into effect, or nothing -/
def Atomic : Operation → Prop
  | rebuild _ _ | setParameter _ _ => True
  | _ => False

end Operation

def Generator.after (g : Generator) (ops : List Operation) : Generator :=
  ops.foldl (fun g op => (op.apply g).2) g

/-- one of the calls closed the generator -/
def Closes (ops : List Operation) : Prop := ∃ device, Operation.close device ∈ ops

/-- one of the calls was a rebuild that did not fail -/
def Rebuilds (g : Generator) (ops : List Operation) : Prop :=
  ∃ before built device rest, ops = before ++ Operation.rebuild built device :: rest ∧
    ((Operation.rebuild built device).apply (g.after before)).1 = none

structure InEffect (g : Generator) (s : ExecutionState) : Prop where
  live : s.disposed = false
  program : g.program = some s.program
  seed : s.seed = g.seed
  parameters : s.program.parameterData g.values = .ok s.parameters

structure Ordered (g : Generator) : Prop where
  holds : ∀ id, g.current = some id → ∃ s, g.states[id]? = some s ∧ InEffect g s
  packable : ∀ p, g.program = some p → p.Packable g.values
  closed : g.closed = true → g.current = none

/-! ## states -/

section
variable {g g' : Generator} {s s' : ExecutionState} {id : Nat} {p : Program} {op : Operation}
  {ops : List Operation}

/-- a state that differs in nothing but uploads -/
structure SameState (s s' : ExecutionState) : Prop where
  program : s'.program = s.program
  seed : s'.seed = s.seed
  parameters : s'.parameters = s.parameters
  disposed : s'.disposed = s.disposed

theorem run_same (s : ExecutionState) (name : String) (device : Device) (segment : Segment) :
    SameState s (s.run name device segment).2.1 := by
  have same : SameState s (uploaded s name segment.size) := by
    unfold uploaded
    split <;> exact ⟨rfl, rfl, rfl, rfl⟩
  rcases runIn_state s Stage.dispatches name device segment with h | h <;>
    rw [ExecutionState.run, h]
  · exact ⟨rfl, rfl, rfl, rfl⟩
  · exact same

/-- what a state must agree with is the same -/
structure SameSettings (g g' : Generator) : Prop where
  program : g'.program = g.program
  values : g'.values = g.values
  seed : g'.seed = g.seed
  closed : g'.closed = g.closed

theorem InEffect.settings (h : InEffect g s) (same : SameSettings g g') : InEffect g' s where
  live := h.live
  program := same.program.trans h.program
  seed := h.seed.trans same.seed.symm
  parameters := same.values ▸ h.parameters

theorem InEffect.same (h : InEffect g s) (same : SameState s s') : InEffect g s' where
  live := same.disposed.trans h.live
  program := same.program ▸ h.program
  seed := same.seed.trans h.seed
  parameters := by
    rw [same.program, same.parameters]
    exact h.parameters

theorem Ordered.settings (h : Ordered g) (same : SameSettings g g')
    (holds : ∀ id, g'.current = some id → ∃ s, g'.states[id]? = some s ∧ InEffect g s)
    (closed : g.closed = true → g'.current = none) : Ordered g' where
  holds id current := by
    obtain ⟨s, found, inEffect⟩ := holds id current
    exact ⟨s, found, inEffect.settings same⟩
  packable p program := same.values ▸ h.packable p (same.program ▸ program)
  closed closed' := closed (same.closed ▸ closed')

/-- a state may be replaced by one that differs in nothing but uploads -/
theorem Ordered.setState (h : Ordered g) (found : g.states[id]? = some s) (same : SameState s s') :
    Ordered (g.setState id s') := by
  refine h.settings ⟨rfl, rfl, rfl, rfl⟩ ?_ h.closed
  intro held current
  obtain ⟨t, held_t, inEffect⟩ := h.holds held current
  show ∃ t, (g.states.setIfInBounds id s')[held]? = some t ∧ _
  rw [Array.getElem?_setIfInBounds]
  split
  · next eq =>
    subst eq
    cases found.symm.trans held_t
    rw [if_pos (Array.getElem?_eq_some_iff.1 found).1]
    exact ⟨s', rfl, inEffect.same same⟩
  · exact ⟨t, held_t, inEffect⟩

theorem Ordered.record (h : Ordered g) (id : Nat) (calls : List (String × Attempt)) :
    Ordered (g.record id calls) :=
  h.settings ⟨rfl, rfl, rfl, rfl⟩ h.holds h.closed

/-- other settings, and the state in effect as it was -/
structure SameHeld (g g' : Generator) : Prop where
  current : g'.current = g.current
  states : g'.states = g.states
  closed : g'.closed = g.closed

theorem SameHeld.state? (same : SameHeld g g') : g'.state? = g.state? := by
  unfold Generator.state?
  rw [same.current, same.states]

theorem Ordered.replaced (h : Ordered g) (current : g.current = some id) (same : SameHeld g g')
    (packable : ∀ p, g'.program = some p → p.Packable g'.values) (inEffect : InEffect g' s') :
    Ordered (g'.setState id s') where
  holds held current' := by
    obtain ⟨s, found, -⟩ := h.holds id current
    have eq : held = id := Option.some.inj (current'.symm.trans (same.current.trans current))
    subst eq
    refine ⟨s', ?_, inEffect.settings ⟨rfl, rfl, rfl, rfl⟩⟩
    show (g'.states.setIfInBounds held s')[held]? = _
    rw [same.states, Array.getElem?_setIfInBounds, if_pos rfl,
      if_pos (Array.getElem?_eq_some_iff.1 found).1]
  packable := packable
  closed closed' := same.current.trans (h.closed (same.closed ▸ closed'))

theorem ordered_idle (idle : g.current = none)
    (packable : ∀ p, g.program = some p → p.Packable g.values) : Ordered g where
  holds _ current := absurd (current.symm.trans idle) nofun
  packable := packable
  closed _ := idle

theorem Ordered.state? (h : Ordered g) :
    (g.current = none ∧ g.state? = none) ∨
      ∃ id s, g.current = some id ∧ g.state? = some s ∧ g.states[id]? = some s ∧ InEffect g s := by
  unfold Generator.state?
  cases current : g.current with
  | none => exact .inl ⟨rfl, rfl⟩
  | some id =>
    obtain ⟨s, found, inEffect⟩ := h.holds id current
    exact .inr ⟨id, s, rfl, found, found, inEffect⟩

/-! ## calls, one by one -/

theorem create_ok {values : Bindings} (seed : Seed) (packable : p.Packable values) :
    ∃ s, ExecutionState.create p seed values = .ok s ∧ s.disposed = false ∧ s.program = p ∧
      s.seed = seed ∧ p.parameterData values = .ok s.parameters := by
  have packed := packable.data
  refine ⟨⟨p, seed, p.packed values, [], false⟩, ?_, rfl, rfl, rfl, packed⟩
  unfold ExecutionState.create
  rw [packed]
  rfl

theorem refresh_ok {values : Bindings} (s : ExecutionState) (packable : p.Packable values) :
    s.refresh p values = .ok { s with program := p, parameters := p.packed values } := by
  unfold ExecutionState.refresh
  rw [packable.data]
  rfl

theorem state_cases (h : Ordered g) :
    (g.closed = true ∧ g.state = (.error .closed, g)) ∨
      (g.closed = false ∧ g.program = none ∧ g.state = (.error .noProgram, g)) ∨
      ∃ id g', g.closed = false ∧ g.program ≠ none ∧ g.state = (.ok id, g') ∧ Ordered g' ∧
        SameSettings g g' := by
  unfold Generator.state
  cases closed : g.closed with
  | true => exact .inl ⟨rfl, rfl⟩
  | false =>
    cases program : g.program with
    | none => exact .inr (.inl ⟨rfl, rfl, rfl⟩)
    | some p =>
      refine .inr (.inr ?_)
      cases current : g.current with
      | some id => exact ⟨id, g, rfl, nofun, rfl, h, rfl, rfl, rfl, rfl⟩
      | none =>
        obtain ⟨s, created, live, of, seed, packed⟩ := create_ok g.seed (h.packable p program)
        dsimp only
        rw [created]
        refine ⟨_, _, rfl, nofun, rfl, h.settings ⟨program.symm, rfl, rfl, closed.symm⟩ ?_ ?_,
          program.symm, rfl, rfl, closed.symm⟩
        · intro id held
          cases held
          refine ⟨s, Array.getElem?_push_size, live, of ▸ program, seed, ?_⟩
          rw [of]
          exact packed
        · intro closed'
          rw [closed] at closed'
          cases closed'

theorem runState_ordered (h : Ordered g) (id : Nat) (name : String) (device : Device)
    (segment : Segment) :
    Ordered (g.runState id name device segment).2 ∧
      SameSettings g (g.runState id name device segment).2 := by
  unfold Generator.runState
  cases found : g.states[id]? with
  | none => exact ⟨h, rfl, rfl, rfl, rfl⟩
  | some s =>
    exact ⟨(h.setState found (run_same s name device segment)).record _ _, rfl, rfl, rfl, rfl⟩

theorem run_ordered (h : Ordered g) (name : String) (device : Device) (segment : Segment) :
    Ordered (g.run name device segment).2 ∧ SameSettings g (g.run name device segment).2 := by
  unfold Generator.run
  obtain ⟨-, eq⟩ | ⟨-, -, eq⟩ | ⟨id, g', -, -, eq, ordered, same⟩ := state_cases h <;> rw [eq]
  · exact ⟨h, rfl, rfl, rfl, rfl⟩
  · exact ⟨h, rfl, rfl, rfl, rfl⟩
  · obtain ⟨ordered', same'⟩ := runState_ordered ordered id name device segment
    exact ⟨ordered', same'.program.trans same.program, same'.values.trans same.values,
      same'.seed.trans same.seed, same'.closed.trans same.closed⟩

theorem lookup_rebound (values : Bindings) (name other : String) (v : Value) :
    (values.map fun (n, w) => (n, if n == name then v else w)).lookup other =
      (values.lookup other).map fun w => if other == name then v else w := by
  induction values with
  | nil => rfl
  | cons b rest ih =>
    rw [map_cons, lookup_cons, lookup_cons]
    cases eq : other == b.1 with
    | true => rw [eq_of_beq eq]; rfl
    | false => exact ih

theorem lookup_bind (values : Bindings) (name other : String) (v : Value) :
    (Generator.bind values name v).lookup other =
      if other = name then some v else values.lookup other := by
  have known : values.any (·.1 == name) = (values.lookup name).isSome := by
    induction values with
    | nil => rfl
    | cons b rest ih =>
      rw [any_cons, lookup_cons, ih, BEq.comm]
      cases name == b.1 <;> rfl
  unfold Generator.bind
  rw [known]
  by_cases same : other = name
  · subst same
    rw [if_pos rfl]
    cases bound : values.lookup other with
    | none => simp [lookup_append, bound]
    | some w => rw [Option.isSome_some, if_pos rfl, lookup_rebound, bound, beq_self_eq_true]; rfl
  · rw [if_neg same]
    have differ : (other == name) = false := beq_false_of_ne same
    split
    · rw [lookup_rebound, differ]
      simp
    · rw [lookup_append, lookup_cons, differ]
      simp

theorem refreshState_of_state (current : g.current = some id) (state : g.state? = some s)
    (packable : p.Packable g.values) : g.refreshState p =
      (.ok (), g.setState id { s with program := p, parameters := p.packed g.values }) := by
  unfold Generator.refreshState
  split
  · next held found =>
    cases held.symm.trans current
    cases found.symm.trans state
    rw [refresh_ok s packable]
  · next other => exact absurd state (other _ _ current)

theorem refreshState_ok (h : Ordered g) (same : SameHeld g g') (seed : g'.seed = g.seed)
    (program : g'.program = some p) (packable : p.Packable g'.values) :
    ∃ g'', g'.refreshState p = (.ok (), g'') ∧ Ordered g'' ∧ g''.program = g'.program ∧
      g''.closed = g'.closed := by
  have packable' : ∀ p, g'.program = some p → p.Packable g'.values := by
    intro q program'
    cases program.symm.trans program'
    exact packable
  obtain ⟨current, -⟩ | ⟨id, s, current, state, found, inEffect⟩ := h.state?
  · unfold Generator.refreshState
    rw [same.current, current]
    exact ⟨g', rfl, ordered_idle (same.current.trans current) packable', rfl, rfl⟩
  · rw [refreshState_of_state (same.current.trans current) (same.state?.trans state) packable]
    refine ⟨_, rfl, h.replaced current same packable' ?_, rfl, rfl⟩
    exact ⟨inEffect.live, program, inEffect.seed.trans seed.symm, packable.data⟩

theorem checkParameter_ok {name : String} {v : Value} (checked : g.checkParameter name v = .ok ())
    (program : g.program = some p) : ∃ q, p.injected.lookup name = some q ∧ q.shape = v.shape := by
  unfold Generator.checkParameter at checked
  rw [program] at checked
  dsimp only at checked
  split at checked
  · cases checked
  · next q known =>
    split at checked
    · next shape => exact ⟨q, known, shape⟩
    · cases checked

theorem setParameter_eq {name : String} {v : Value} (checked : g.checkParameter name v = .ok ()) :
    g.setParameter name v =
      match g.state? with
      | some s => { g with values := Generator.bind g.values name v }.refreshState s.program
      | none => (.ok (), { g with values := Generator.bind g.values name v }) := by
  unfold Generator.setParameter
  rw [checked]
  rfl

theorem setParameter_cases (h : Ordered g) (name : String) (v : Value) :
    (∃ e, g.setParameter name v = (.error e, g)) ∨
      ∃ g', g.setParameter name v = (.ok (), g') ∧ Ordered g' ∧ g'.program = g.program ∧
        g'.closed = g.closed := by
  cases checked : g.checkParameter name v with
  | error e =>
    refine .inl ⟨e, ?_⟩
    unfold Generator.setParameter
    rw [checked]
  | ok _ =>
    refine .inr ?_
    rw [setParameter_eq checked]
    let g' : Generator := { g with values := Generator.bind g.values name v }
    have same : SameHeld g g' := ⟨rfl, rfl, rfl⟩
    have packable : ∀ p, g'.program = some p → p.Packable g'.values := by
      intro p program
      obtain ⟨q, known, shape⟩ := checkParameter_ok checked program
      refine (h.packable p program).bind known shape ?_ fun other ne => ?_
      · exact (lookup_bind g.values name name v).trans (if_pos rfl)
      · exact (lookup_bind g.values name other v).trans (if_neg ne)
    obtain ⟨current, state⟩ | ⟨id, s, current, state, found, inEffect⟩ := h.state? <;> rw [state]
    · exact ⟨g', rfl, ordered_idle current packable, rfl, rfl⟩
    · exact refreshState_ok h same rfl inEffect.program (packable _ inEffect.program)

theorem setSeed_of_idle (seed : Seed) (current : g.current = none) :
    g.setSeed seed = { g with seed } := by
  unfold Generator.setSeed
  dsimp only
  split
  · next held _ => cases held.symm.trans current
  · rfl

theorem setSeed_of_state (seed : Seed) (current : g.current = some id) (state : g.state? = some s) :
    g.setSeed seed = { g with seed }.setState id { s with seed } := by
  have same : SameHeld g { g with seed } := ⟨rfl, rfl, rfl⟩
  unfold Generator.setSeed
  dsimp only
  split
  · next held found =>
    cases held.symm.trans current
    cases found.symm.trans (same.state?.trans state)
    rfl
  · next other => exact absurd (same.state?.trans state) (other _ _ current)

theorem setSeed_ordered (h : Ordered g) (seed : Seed) :
    Ordered (g.setSeed seed) ∧ (g.setSeed seed).program = g.program ∧
      (g.setSeed seed).closed = g.closed := by
  obtain ⟨current, -⟩ | ⟨id, s, current, state, found, inEffect⟩ := h.state?
  · rw [setSeed_of_idle seed current]
    exact ⟨ordered_idle current h.packable, rfl, rfl⟩
  · rw [setSeed_of_state seed current state]
    refine ⟨h.replaced current ⟨rfl, rfl, rfl⟩ h.packable ?_, rfl, rfl⟩
    exact ⟨inEffect.live, inEffect.program, rfl, inEffect.parameters⟩

theorem disposeCurrent_fields (g : Generator) (device : String → Device) :
    (g.disposeCurrent device).2.current = none ∧ (g.disposeCurrent device).2.program = g.program ∧
      (g.disposeCurrent device).2.values = g.values ∧
      (g.disposeCurrent device).2.closed = g.closed := by
  unfold Generator.disposeCurrent
  split <;> exact ⟨rfl, rfl, rfl, rfl⟩

theorem disposeCurrent_ordered {device : String → Device}
    (packable : ∀ p, g.program = some p → p.Packable g.values) :
    Ordered (g.disposeCurrent device).2 := by
  obtain ⟨idle, program, values, -⟩ := disposeCurrent_fields g device
  refine ordered_idle idle fun p of => ?_
  rw [values]
  exact packable p (program ▸ of)

theorem close_ordered (h : Ordered g) (device : String → Device) :
    Ordered (g.close device).2 ∧ (g.close device).2.program = g.program ∧
      (g.close device).2.closed = true := by
  unfold Generator.close
  cases closed : g.closed with
  | true => exact ⟨h, rfl, closed⟩
  | false =>
    obtain ⟨-, program, -, closed⟩ := disposeCurrent_fields { g with closed := true } device
    exact ⟨disposeCurrent_ordered h.packable, program, closed⟩

theorem install_ok (h : Ordered g) (live : g.closed = false)
    (packable : p.Packable g.values) (device : String → Device) :
    ∃ rebuilt g', g.install device p = (.ok rebuilt, g') ∧ Ordered g' ∧ g'.program = some p ∧
      g'.closed = false := by
  let g' : Generator := { g with program := some p }
  have same : SameHeld g g' := ⟨rfl, rfl, rfl⟩
  have packable' : ∀ q, g'.program = some q → q.Packable g'.values := by
    rintro q ⟨⟩
    exact packable
  obtain ⟨-, program, -, closed⟩ := disposeCurrent_fields g' device
  obtain ⟨g'', refreshed, ordered, program', closed'⟩ := refreshState_ok h same rfl rfl packable
  unfold Generator.install
  rw [if_neg (live ▸ Bool.false_ne_true)]
  extract_lets changed
  by_cases other : changed = true
  · rw [if_pos other]
    exact ⟨_, _, rfl, disposeCurrent_ordered packable', program, closed.trans live⟩
  · rw [if_neg other]
    show ∃ rebuilt g'', (((g'.refreshState p).1.map _, (g'.refreshState p).2) : _ × _) = _ ∧ _
    rw [refreshed]
    exact ⟨⟨p, false⟩, g'', rfl, ordered, program', closed'.trans live⟩

theorem rebuild_cases (h : Ordered g) (device : String → Device) (built : Generator.Built)
    (sound : built.graph.Built ∧ built.graph.size ≤ 2 ^ 59) :
    (∃ e, g.rebuild device (fun g => (built, g)) = (.error e, g)) ∨
      ∃ rebuilt g', g.rebuild device (fun g => (built, g)) = (.ok rebuilt, g') ∧ Ordered g' ∧
        g'.program ≠ none ∧ g'.closed = g.closed := by
  unfold Generator.rebuild
  cases closed : g.closed with
  | true => exact .inl ⟨.closed, rfl⟩
  | false =>
    dsimp only
    rw [if_neg Bool.false_ne_true]
    cases compiled : Generator.compileBuilt { g.options with bindings := g.values } built with
    | error e => exact .inl ⟨e, rfl⟩
    | ok p =>
      have packable : p.Packable g.values := by
        unfold Generator.compileBuilt at compiled
        cases roots : built.roots with
        | error e =>
          rw [roots] at compiled
          cases compiled
        | ok roots' =>
          rw [roots] at compiled
          change (built.graph.compile roots' { g.options with bindings := g.values }).mapError _ = _
            at compiled
          cases program : built.graph.compile roots' { g.options with bindings := g.values } with
          | error e =>
            rw [program] at compiled
            cases compiled
          | ok q =>
            rw [program] at compiled
            cases compiled
            exact compile_packable sound.1 sound.2 program
      have kept : Ordered (g.keep p) := h.settings ⟨rfl, rfl, rfl, rfl⟩ h.holds h.closed
      obtain ⟨rebuilt, g', installed, ordered, program, live⟩ :=
        install_ok kept closed packable device
      exact .inr ⟨rebuilt, g', installed, ordered, by rw [program]; nofun, live⟩

/-! ## histories -/

def Operation.closes : Operation → Bool
  | close _ => true
  | _ => false

def Operation.rebuilds : Operation → Bool
  | rebuild _ _ => true
  | _ => false

/-- what one call does to a generator in order -/
structure Stepped (g : Generator) (op : Operation) : Prop where
  ordered : Ordered (op.apply g).2
  closed : (op.apply g).2.closed = (g.closed || op.closes)
  program : (op.apply g).2.program ≠ none ↔
    g.program ≠ none ∨ op.rebuilds = true ∧ (op.apply g).1 = none
  atomic : op.Atomic → (op.apply g).1 ≠ none → (op.apply g).2 = g

theorem stepped_quiet {e : Option PipelineError} (eq : op.apply g = (e, g')) (ordered : Ordered g')
    (program : g'.program = g.program) (closed : g'.closed = g.closed) (closes : op.closes = false)
    (rebuilds : op.rebuilds = false) (atomic : op.Atomic → e ≠ none → g' = g) : Stepped g op := by
  constructor <;> rw [eq]
  · exact ordered
  · rw [closes, closed, Bool.or_false]
  · rw [rebuilds, program]
    simp
  · exact atomic

theorem apply_stepped (h : Ordered g) (sound : op.Sound) : Stepped g op := by
  cases op with
  | rebuild built device =>
    obtain ⟨e, eq⟩ | ⟨rebuilt, g', eq, ordered, program, closed⟩ :=
      rebuild_cases h device built sound
    · have applied : (Operation.rebuild built device).apply g = (some e, g) := congrArg outcome eq
      constructor <;> rw [applied]
      · exact h
      · exact (Bool.or_false _).symm
      · exact ⟨.inl, fun h => h.elim (fun h => h) (fun h => nomatch h.2)⟩
      · exact fun _ _ => rfl
    · have applied : (Operation.rebuild built device).apply g = (none, g') := congrArg outcome eq
      constructor <;> rw [applied]
      · exact ordered
      · exact closed.trans (Bool.or_false _).symm
      · exact ⟨fun _ => .inr ⟨rfl, rfl⟩, fun _ => program⟩
      · exact fun _ failed => absurd rfl failed
  | state =>
    obtain ⟨-, eq⟩ | ⟨-, -, eq⟩ | ⟨id, g', -, -, eq, ordered, same⟩ := state_cases h
    · exact stepped_quiet (congrArg outcome eq) h rfl rfl rfl rfl nofun
    · exact stepped_quiet (congrArg outcome eq) h rfl rfl rfl rfl nofun
    · exact stepped_quiet (congrArg outcome eq) ordered same.program same.closed rfl rfl nofun
  | setParameter name v =>
    obtain ⟨e, eq⟩ | ⟨g', eq, ordered, program, closed⟩ := setParameter_cases h name v
    · exact stepped_quiet (congrArg outcome eq) h rfl rfl rfl rfl fun _ _ => rfl
    · exact stepped_quiet (congrArg outcome eq) ordered program closed rfl rfl
        fun _ failed => absurd rfl failed
  | setSeed seed =>
    obtain ⟨ordered, program, closed⟩ := setSeed_ordered h seed
    exact stepped_quiet rfl ordered program closed rfl rfl nofun
  | run name device segment =>
    obtain ⟨ordered, same⟩ := run_ordered h name device segment
    exact stepped_quiet rfl ordered same.program same.closed rfl rfl nofun
  | runState id name device segment =>
    obtain ⟨ordered, same⟩ := runState_ordered h id name device segment
    exact stepped_quiet rfl ordered same.program same.closed rfl rfl nofun
  | close device =>
    obtain ⟨ordered, program, closed⟩ := close_ordered h device
    refine ⟨ordered, closed.trans (Bool.or_true _).symm, ?_, nofun⟩
    show (g.close device).2.program ≠ none ↔ _
    rw [program]
    exact ⟨.inl, fun h => h.elim (fun h => h) (fun h => nomatch h.1)⟩

theorem closes_cons :
    Closes (op :: ops) ↔ op.closes = true ∨ Closes ops := by
  unfold Closes
  constructor
  · rintro ⟨device, member⟩
    rcases mem_cons.1 member with rfl | member
    · exact .inl rfl
    · exact .inr ⟨device, member⟩
  · rintro (closes | ⟨device, member⟩)
    · cases op with
      | close device => exact ⟨device, .head _⟩
      | _ => cases closes
    · exact ⟨device, .tail _ member⟩

theorem rebuilds_cons :
    Rebuilds g (op :: ops) ↔
      (op.rebuilds = true ∧ (op.apply g).1 = none) ∨ Rebuilds (op.apply g).2 ops := by
  constructor
  · rintro ⟨before, built, device, rest, eq, done⟩
    cases before with
    | nil =>
      cases eq
      exact .inl ⟨rfl, done⟩
    | cons first before =>
      cases eq
      exact .inr ⟨before, built, device, rest, rfl, done⟩
  · rintro (⟨rebuilds, done⟩ | ⟨before, built, device, rest, rfl, done⟩)
    · cases op with
      | rebuild built device => exact ⟨[], built, device, ops, rfl, done⟩
      | _ => cases rebuilds
    · exact ⟨op :: before, built, device, rest, rfl, done⟩

theorem after_ordered (h : Ordered g) (sound : ∀ op ∈ ops, op.Sound) :
    Ordered (g.after ops) ∧ ((g.after ops).closed = true ↔ g.closed = true ∨ Closes ops) ∧
      ((g.after ops).program ≠ none ↔ g.program ≠ none ∨ Rebuilds g ops) := by
  induction ops generalizing g with
  | nil => exact ⟨h, by simp [Generator.after, Closes], by simp [Generator.after, Rebuilds]⟩
  | cons op ops ih =>
    have step := apply_stepped h (sound op (.head _))
    obtain ⟨ordered, closed, program⟩ :=
      ih step.ordered fun op member => sound op (.tail _ member)
    refine ⟨ordered, closed.trans ?_, program.trans ?_⟩
    · rw [step.closed, Bool.or_eq_true, closes_cons, or_assoc]
    · rw [step.program, rebuilds_cons, or_assoc]

end

/-- **Histories of a generator.**  After any operations, the state that is current is in effect.  A
state is missing only because the generator was closed, or because it has no program.  An operation
that happens as a whole changes nothing when it fails. -/
theorem history_ordered (options : Compile.Options) (seed : Seed) (values : Bindings)
    (store : Option MemoryStore) (ops : List Operation) (sound : ∀ op ∈ ops, op.Sound) :
    let start := Generator.create options seed values store
    let g := start.after ops
    (∀ id, g.current = some id → ∃ s, g.states[id]? = some s ∧ InEffect g s) ∧
      (∀ e, g.state.1 = .error e ↔
        e = .closed ∧ Closes ops ∨ e = .noProgram ∧ ¬ Closes ops ∧ ¬ Rebuilds start ops) ∧
      ∀ op : Operation, op.Sound → op.Atomic → (op.apply g).1 ≠ none → (op.apply g).2 = g := by
  intro start g
  have idle : Ordered start := ordered_idle rfl nofun
  obtain ⟨ordered, closed, program⟩ := after_ordered idle sound
  change Ordered g at ordered
  replace closed : g.closed = true ↔ Closes ops := closed.trans (by simp [start, Generator.create])
  replace program : g.program ≠ none ↔ Rebuilds start ops :=
    program.trans (by simp [start, Generator.create])
  refine ⟨ordered.holds, fun e => ?_, fun op sound => (apply_stepped ordered sound).atomic⟩
  rw [← closed, ← program]
  obtain ⟨isClosed, eq⟩ | ⟨isOpen, missing, eq⟩ | ⟨id, g', isOpen, present, eq, -⟩ :=
    state_cases ordered
  · simp [eq, isClosed, eq_comm]
  · simp [eq, isOpen, missing, eq_comm]
  · simp [eq, isOpen, present]

/-- a parameter over a constant, stored as a density -/
def scaledConstant : Graph :=
  let g := (Graph.initial.insert (.inject "scale" .float (some (.scalar .one))) []).2
  (g.insert (.binary .add) [.node 2, .node 2]).2

theorem built_scaledConstant : scaledConstant.Built :=
  .insert _ _ (.insert _ _ .initial (by simp) rfl) (by simp) rfl

def boundHistory : List Operation :=
  [.rebuild ⟨scaledConstant, .ok [⟨"density", some 3⟩]⟩ (fun _ => .reliable), .state,
    .setParameter "scale" (.scalar ⟨0x40000000⟩)]

/-- a state is made, a parameter is bound under it, and a value of another shape is refused -/
theorem history_ordered_bound :
    ∃ g s, g = (Generator.create ⟨[], some [], 0⟩ default [] none).after boundHistory ∧
      g.states[0]? = some s ∧ InEffect g s ∧
      s.parameters = [0, 0, 0, 0x40, 0, 0, 0, 0, 0, 0, 0, 0, 0, 0, 0, 0] ∧
      ((Operation.setParameter "scale" (.int 2)).apply g).1 ≠ none ∧
      ((Operation.setParameter "scale" (.int 2)).apply g).2 = g := by
  have sound : ∀ op ∈ boundHistory, op.Sound := by
    intro op member
    rcases List.mem_cons.1 member with rfl | member
    · exact ⟨built_scaledConstant, by decide⟩
    · rcases List.mem_cons.1 member with rfl | member
      · trivial
      · cases List.mem_singleton.1 member
        trivial
  generalize made : (Generator.create ⟨[], some [], 0⟩ default [] none).after boundHistory = g
  have facts : decide (g.current = some 0 ∧ g.states[0]?.map ExecutionState.parameters =
      some [0, 0, 0, 0x40, 0, 0, 0, 0, 0, 0, 0, 0, 0, 0, 0, 0] ∧
      ((Operation.setParameter "scale" (.int 2)).apply g).1 ≠ none) = true := by
    subst made
    decide +kernel
  obtain ⟨current, parameters, refused⟩ := of_decide_eq_true facts
  obtain ⟨holds, -, atomic⟩ := history_ordered ⟨[], some [], 0⟩ default [] none boundHistory sound
  rw [made] at holds atomic
  obtain ⟨s, found, inEffect⟩ := holds 0 current
  rw [found] at parameters
  exact ⟨g, s, rfl, found, inEffect, Option.some.inj parameters, refused,
    atomic _ trivial trivial refused⟩

end Terrain.Pipeline
