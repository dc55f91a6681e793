import Terrain.Pipeline.Run

/-!
# The calls of a run

A run makes its calls in blocks: the upload, the uniforms, the dispatches of a stage, a fence, the
readbacks.  The calls of a block are all made, and the next block is begun if none of them failed.

* `answers`       the calls of one block with what the device answers;
* `execute`       blocks one after the other, up to the first that fails;
* `Performs`      a step makes the calls of some blocks, and succeeds if they do;
* `workBlocks`    the blocks of a run up to the last fence;
* `runIn_eq`      the calls of a run are these blocks and the readbacks, executed.
-/

namespace Terrain.Pipeline

open List

/-! ## steps -/

section
variable {α β : Type} (device : Device) (t : Trace)

theorem run_bind (x : RunM α) (f : α → RunM β) :
    (x >>= f).run.run t = match x.run.run t with
      | (.ok a, t') => (f a).run.run t'
      | (.error e, t') => (.error e, t') := by
  show (ExceptT.run x >>= ExceptT.bindCont f).run t = _
  rw [StateT.run_bind]
  show (match ExceptT.run x t with | (a, t') => _) = _
  rcases (ExceptT.run x).run t with ⟨_ | _, _⟩ <;> rfl

theorem run_lift (x : StateM Trace α) (f : α → RunM β) :
    ((x : RunM α) >>= f).run.run t = (f (x.run t).1).run.run (x.run t).2 := rfl

theorem run_must (call : Call) (error : String → RunError) :
    (must device call error).run.run t =
      (match device t call with
        | some failure => .error (error failure)
        | none => .ok (), t ++ [⟨call, device t call⟩]) := by
  unfold must ask
  show (match device t call with
    | some failure => throw (error failure)
    | none => pure () : RunM Unit).run.run (t ++ [⟨call, device t call⟩]) = _
  cases device t call <;> rfl

end

/-! ## blocks -/

def answers (device : Device) : Trace → List Call → Trace
  | _, [] => []
  | t, call :: rest => ⟨call, device t call⟩ :: answers device (t ++ [⟨call, device t call⟩]) rest

/-- did all calls succeed? -/
def Trace.succeeds (t : Trace) : Bool := t.all fun a => a.failure.isNone

def execute (device : Device) : Trace → List (List Call) → Trace
  | _, [] => []
  | t, block :: rest =>
    answers device t block ++
      if Trace.succeeds (answers device t block) then
        execute device (t ++ answers device t block) rest
      else []

section
variable (device : Device) (t : Trace)

theorem map_call_answers (calls : List Call) :
    (answers device t calls).map Attempt.call = calls := by
  induction calls generalizing t with
  | nil => rfl
  | cons call rest ih => exact congrArg (call :: ·) (ih _)

theorem succeeds_append (a b : Trace) :
    Trace.succeeds (a ++ b) = (Trace.succeeds a && Trace.succeeds b) := all_append

theorem succeeds_iff {a : Trace} : Trace.succeeds a = true ↔ ∀ x ∈ a, x.failure = none := by
  unfold Trace.succeeds
  simp only [all_eq_true, Option.isNone_iff_eq_none]

theorem findSome?_failure (a : Trace) :
    (a.findSome? Attempt.failure).isNone = Trace.succeeds a := by
  unfold Trace.succeeds
  induction a with
  | nil => rfl
  | cons x a ih =>
    rw [findSome?_cons, all_cons]
    cases x.failure with
    | none => exact ih
    | some f => rfl

theorem execute_append (xs ys : List (List Call)) :
    execute device t (xs ++ ys) = execute device t xs ++
      if Trace.succeeds (execute device t xs) then execute device (t ++ execute device t xs) ys
      else [] := by
  induction xs generalizing t with
  | nil => simp [execute, Trace.succeeds]
  | cons block xs ih =>
    rw [cons_append, execute, execute]
    cases ok : Trace.succeeds (answers device t block) with
    | true => simp [ih, succeeds_append, ok, append_assoc]
    | false => simp [ok]

theorem execute_singleton (block : List Call) :
    execute device t [block] = answers device t block := by
  unfold execute
  split <;> exact append_nil _

theorem run_askAll (calls : List Call) :
    (askAll device calls).run t =
      ((answers device t calls).findSome? Attempt.failure, t ++ answers device t calls) := by
  induction calls generalizing t with
  | nil => exact congrArg (Prod.mk none) (append_nil t).symm
  | cons call rest ih =>
    have later := ih (t ++ [⟨call, device t call⟩])
    show (let (later, t') := (askAll device rest).run (t ++ [⟨call, device t call⟩])
      ((device t call <|> later : Option String), t')) = _
    simp only [later, answers, findSome?_cons, append_assoc]
    cases device t call <;> rfl

end

/-! ## what steps call -/

def Performs {α : Type} (device : Device) (x : RunM α) (blocks : List (List Call)) : Prop :=
  ∀ t, (x.run.run t).2 = t ++ execute device t blocks ∧
    (x.run.run t).1.isOk = Trace.succeeds (execute device t blocks)

section
variable {α β : Type} {device : Device} {xs ys : List (List Call)}

theorem performs_pure (a : α) : Performs device (pure a) [] :=
  fun t => ⟨(append_nil t).symm, rfl⟩

theorem Performs.bind {x : RunM α} {f : α → RunM β} (h : Performs device x xs)
    (h' : ∀ a, Performs device (f a) ys) : Performs device (x >>= f) (xs ++ ys) := by
  intro t
  obtain ⟨trace, ok⟩ := h t
  rw [run_bind, execute_append]
  rcases result : x.run.run t with ⟨r, t'⟩
  rw [result] at trace ok
  dsimp only at trace ok
  subst trace
  cases r with
  | error e =>
    rw [← ok]
    exact ⟨by simp [Except.isOk, Except.toBool], by simp [← ok, Except.isOk, Except.toBool]⟩
  | ok a =>
    have ok : Trace.succeeds (execute device t xs) = true := ok.symm
    rw [if_pos ok, ← append_assoc, succeeds_append, ok]
    exact h' a (t ++ execute device t xs)

theorem performs_must (call : Call) (error : String → RunError) :
    Performs device (must device call error) [[call]] := by
  intro t
  rw [run_must, execute_singleton]
  refine ⟨rfl, ?_⟩
  unfold answers Trace.succeeds
  cases device t call <;> rfl

theorem performs_stage (arrivals : Arrivals) (p : Program) (size : UInt32) (i : Nat)
    (stage : Stage) : Performs device (runStage device arrivals p size i stage)
      [(arrivals stage).map (dispatchCall p size)] := by
  intro t
  unfold runStage
  rw [run_lift, run_askAll, execute_singleton, ← findSome?_failure]
  cases (answers device t ((arrivals stage).map (dispatchCall p size))).findSome?
    Attempt.failure with
  | none | some failure => exact ⟨rfl, rfl⟩

end

def stageBlocks (arrivals : Arrivals) (p : Program) (size : UInt32) :
    Nat → List Stage → List (List Call)
  | _, [] => []
  | i, stage :: rest => (if 0 < i then [[.fence]] else []) ++
      (arrivals stage).map (dispatchCall p size) :: stageBlocks arrivals p size (i + 1) rest

theorem performs_stages {device : Device} (arrivals : Arrivals) (p : Program) (size : UInt32)
    (i : Nat) (stages : List Stage) :
    Performs device (runStages device arrivals p size i stages)
      (stageBlocks arrivals p size i stages) := by
  induction stages generalizing i with
  | nil => exact performs_pure ()
  | cons stage rest ih =>
    have after : Performs device (do
        runStage device arrivals p size i stage
        runStages device arrivals p size (i + 1) rest)
        ((arrivals stage).map (dispatchCall p size) :: stageBlocks arrivals p size (i + 1) rest) :=
      (performs_stage arrivals p size i stage).bind fun _ => ih (i + 1)
    unfold runStages stageBlocks
    by_cases fenced : 0 < i
    · rw [if_pos fenced, if_pos fenced]
      exact (performs_must .fence _).bind fun _ => after
    · rw [if_neg fenced, if_neg fenced]
      exact after

/-! ## runs -/

section
variable (s : ExecutionState) (arrivals : Arrivals) (name : String) (segment : Segment)

/-- may a run begin? -/
def ready (size : UInt32) : Bool := (checkSize s.program size).isOk && !s.disposed

/-- the upload, unless the device has the program -/
def uploadBlocks (size : UInt32) : List (List Call) :=
  if s.uploads.contains ⟨name, size⟩ then [] else [[.upload s.program.digest size]]

def uploaded (size : UInt32) : ExecutionState :=
  if s.uploads.contains ⟨name, size⟩ then s else { s with uploads := s.uploads ++ [⟨name, size⟩] }

/-- the blocks between the upload and the readbacks -/
def stagedBlocks : List (List Call) :=
  [.uniforms s.program.digest { segment with seed := s.seed }.bytes s.parameters] ::
    (stageBlocks arrivals s.program segment.size 0 s.program.schedule ++ [[.fence]])

def workBlocks : List (List Call) :=
  uploadBlocks s name segment.size ++ stagedBlocks s arrivals segment

def readbackCalls (p : Program) : List Call := (outputBuffers p).map (.readback p.digest)

end

section
variable {device : Device} {s s' : ExecutionState} {arrivals : Arrivals} {name : String}
  {segment : Segment} {size : UInt32} {t t' : Trace}

theorem uploaded_program : (uploaded s name size).program = s.program := by
  unfold uploaded
  split <;> rfl

theorem stagedBlocks_uploaded :
    stagedBlocks (uploaded s name size) arrivals segment = stagedBlocks s arrivals segment := by
  unfold uploaded
  split <;> rfl

theorem run_readbacks (device : Device) (t : Trace) (p : Program) (buffers : List Buffer) :
    ∃ outputs, (readbacks device p buffers).run t =
      (outputs, t ++ answers device t (buffers.map (.readback p.digest))) := by
  induction buffers generalizing t with
  | nil => exact ⟨[], congrArg (Prod.mk []) (append_nil t).symm⟩
  | cons b rest ih =>
    let attempt : Attempt := ⟨.readback p.digest b, device t (.readback p.digest b)⟩
    obtain ⟨outputs, later⟩ := ih (t ++ [attempt])
    refine ⟨⟨b.name, b.symbol, attempt.failure⟩ :: outputs, ?_⟩
    show (let (outputs, t') := (readbacks device p rest).run (t ++ [attempt])
      ((⟨b.name, b.symbol, attempt.failure⟩ : Readback) :: outputs, t')) = _
    simp only [later, map_cons, answers, append_assoc]
    rfl

theorem performs_ensureUploaded (live : s.disposed = false) :
    Performs device (s.ensureUploaded name device size) (uploadBlocks s name size) := by
  unfold ExecutionState.ensureUploaded uploadBlocks
  rw [live]
  cases s.uploads.contains ⟨name, size⟩ with
  | true => exact performs_pure s
  | false => exact (performs_must _ _).bind fun _ => performs_pure _

theorem ensureUploaded_disposed (disposed : s.disposed = true) :
    (s.ensureUploaded name device size).run.run t = (.error .disposed, t) := by
  unfold ExecutionState.ensureUploaded
  rw [disposed]
  rfl

theorem ensureUploaded_ok (h : (s.ensureUploaded name device size).run.run t = (.ok s', t')) :
    s' = uploaded s name size := by
  obtain ⟨program, seed, parameters, uploads, disposed⟩ := s
  unfold ExecutionState.ensureUploaded at h
  unfold uploaded
  cases disposed with
  | true => cases h
  | false =>
    cases known : uploads.contains ⟨name, size⟩ with
    | true =>
      simp only [known] at h
      cases h
      rfl
    | false =>
      simp only [known] at h
      rw [if_neg Bool.false_ne_true, if_neg Bool.false_ne_true, run_bind, run_must] at h
      cases answer : device t (.upload program.digest size) with
      | none =>
        rw [answer] at h
        cases h
        rfl
      | some failure =>
        rw [answer] at h
        cases h

/-- a run asks for the buffers once everything else is done, and what they answer does not count -/
theorem run_runUploaded :
    ((runUploaded device arrivals s segment).run.run t).2 =
        t ++ execute device t (stagedBlocks s arrivals segment ++ [readbackCalls s.program]) ∧
      ((runUploaded device arrivals s segment).run.run t).1.isOk =
        Trace.succeeds (execute device t (stagedBlocks s arrivals segment)) := by
  let step : RunM Unit := do
    must device (.uniforms s.program.digest { segment with seed := s.seed }.bytes
      s.parameters) .uniforms
    runStages device arrivals s.program segment.size 0 s.program.schedule
    must device .fence (.fence none)
  have staged : Performs device step (stagedBlocks s arrivals segment) :=
    (performs_must _ _).bind fun _ => (performs_stages _ _ _ _ _).bind fun _ => performs_must _ _
  have split : runUploaded device arrivals s segment = step >>= fun _ => do
      let outputs ← (readbacks device s.program (outputBuffers s.program) : StateM Trace _)
      return ⟨s.program.digest, { segment with seed := s.seed }, outputs⟩ := by
    simp only [step, bind_assoc]
    rfl
  obtain ⟨trace, ok⟩ := staged t
  rw [split, run_bind, execute_append]
  rcases result : step.run.run t with ⟨r, t'⟩
  rw [result] at trace ok
  dsimp only at trace ok
  subst trace
  cases r with
  | error e =>
    have failed : Trace.succeeds (execute device t (stagedBlocks s arrivals segment)) = false :=
      ok.symm
    simp [failed, Except.isOk, Except.toBool]
  | ok _ =>
    have ok : Trace.succeeds (execute device t (stagedBlocks s arrivals segment)) = true := ok.symm
    obtain ⟨outputs, read⟩ := run_readbacks device
      (t ++ execute device t (stagedBlocks s arrivals segment)) s.program (outputBuffers s.program)
    rw [if_pos ok, ok, execute_singleton, ← append_assoc]
    dsimp only
    rw [run_lift, read]
    exact ⟨rfl, rfl⟩

theorem runIn_eq (s : ExecutionState) (arrivals : Arrivals) (name : String) (device : Device)
    (segment : Segment) :
    (s.runIn arrivals name device segment).2.2 =
        (if ready s segment.size then
          execute device [] (workBlocks s arrivals name segment ++ [readbackCalls s.program])
        else []) ∧
      (s.runIn arrivals name device segment).1.isOk =
        (ready s segment.size &&
          Trace.succeeds (execute device [] (workBlocks s arrivals name segment))) := by
  unfold ExecutionState.runIn ready
  cases checkSize s.program segment.size with
  | error e => exact ⟨rfl, rfl⟩
  | ok _ =>
    cases disposed : s.disposed with
    | true => simp [ensureUploaded_disposed disposed, Except.isOk, Except.toBool]
    | false =>
      have performed : Performs device (s.ensureUploaded name device segment.size)
          (uploadBlocks s name segment.size) := performs_ensureUploaded disposed
      obtain ⟨trace, ok⟩ := performed []
      unfold workBlocks
      rw [append_assoc, execute_append, execute_append _ _ _ (stagedBlocks s arrivals segment)]
      rcases result : (s.ensureUploaded name device segment.size).run.run [] with ⟨r, t⟩
      rw [result] at trace ok
      dsimp only [nil_append] at trace ok
      subst trace
      cases r with
      | error e =>
        have failed : Trace.succeeds (execute device [] (uploadBlocks s name segment.size)) =
            false := ok.symm
        simp [failed, Except.isOk, Except.toBool]
      | ok s' =>
        have ok : Trace.succeeds (execute device [] (uploadBlocks s name segment.size)) = true :=
          ok.symm
        rw [if_pos ok, if_pos ok, succeeds_append, ok, nil_append]
        rw [ensureUploaded_ok result]
        have ran := @run_runUploaded device (uploaded s name segment.size) arrivals segment
          (execute device [] (uploadBlocks s name segment.size))
        rw [stagedBlocks_uploaded, uploaded_program] at ran
        exact ran

theorem runIn_state (s : ExecutionState) (arrivals : Arrivals) (name : String) (device : Device)
    (segment : Segment) :
    (s.runIn arrivals name device segment).2.1 = s ∨
      (s.runIn arrivals name device segment).2.1 = uploaded s name segment.size := by
  unfold ExecutionState.runIn
  cases checkSize s.program segment.size with
  | error e => exact .inl rfl
  | ok _ =>
    rcases result : (s.ensureUploaded name device segment.size).run.run [] with ⟨r, t⟩
    cases r with
    | error e => exact .inl rfl
    | ok s' => exact .inr (ensureUploaded_ok result)

end

end Terrain.Pipeline
