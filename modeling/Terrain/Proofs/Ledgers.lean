import Terrain.Proofs.Fencing
import Terrain.Proofs.History

/-!
# The calls through a state

A program is put on a device by a run, through a state, and freed when that state is disposed.  The
state lists its uploads until then; here that list is compared with the calls that devices saw.

* `Working`       calls that free nothing and upload nothing twice;
* `Ledger`        the calls through a state: work, and after that one release for each device that
                  holds the program;
* `Ran`           what a run does to a state;
* `Ledger.run`    a ledger after a run, and `Ledger.dispose` when the state is disposed.
-/

namespace Terrain.Pipeline

open List

open Hash (Digest)

variable {e : Event} {name : String}

/-! ## calls that allocate and free -/

/-- the upload that a call to a device made, unless it failed -/
def Attempt.upload? (name : String) : Attempt → Option Upload
  | ⟨.upload _ size, none⟩ => some ⟨name, size⟩
  | _ => none

def Call.frees : Call → Bool
  | release _ => true
  | _ => false

/-- the program that a call allocates or frees -/
def Call.held : Call → Option Digest
  | upload digest _ | release digest => some digest
  | _ => none

namespace Event

def upload? (e : Event) : Option Upload := e.attempt.upload? e.device

def frees (e : Event) : Bool := e.attempt.call.frees

def through (log : List Event) (id : Nat) : List Event := log.filter (·.state == id)

end Event

/-- how often an upload succeeded through a state -/
def uploadCount (log : List Event) (id : Nat) (u : Upload) : Nat :=
  (Event.through log id).countP (·.upload? == some u)

/-- how often a device was told to free what it holds through a state -/
def releaseCount (log : List Event) (id : Nat) (name : String) : Nat :=
  (Event.through log id).countP fun e => e.device == name && e.frees

/-- the devices that a program was put on, each once -/
def holders (calls : List Event) : List String :=
  ((calls.filterMap Event.upload?).map Upload.device).eraseDups

structure Working (digest : Digest) (calls : List Event) : Prop where
  frees : ∀ e ∈ calls, e.frees = false
  held : ∀ e ∈ calls, ∀ d, e.attempt.call.held = some d → d = digest
  once : (calls.filterMap Event.upload?).Nodup

/-- each device that a program was put on is told once to free it -/
def Freed (digest : Digest) (work releases : List Event) : Prop :=
  releases.map (fun e => (e.device, e.attempt.call)) =
    (holders work).map fun name => (name, .release digest)

inductive Ledger (s : ExecutionState) : List Event → Prop
  | live {calls : List Event} (live : s.disposed = false) (works : Working s.program.digest calls)
      (uploads : calls.filterMap Event.upload? = s.uploads) : Ledger s calls
  | disposed {work releases : List Event} (gone : s.disposed = true)
      (works : Working s.program.digest work)
      (freed : Freed s.program.digest work releases) : Ledger s (work ++ releases)

section
variable {s s' : ExecutionState} {calls : List Event}

theorem ledger_new (live : s.disposed = false) (none : s.uploads = []) : Ledger s [] :=
  .live live ⟨nofun, nofun,
    nodup_nil⟩ none.symm

theorem Ledger.same (h : Ledger s calls) (digest : s'.program.digest = s.program.digest)
    (uploads : s'.uploads = s.uploads) (disposed : s'.disposed = s.disposed) : Ledger s' calls := by
  cases h with
  | live live works listed =>
    exact .live (disposed.trans live) (digest ▸ works) (listed.trans uploads.symm)
  | disposed gone works freed =>
    exact .disposed (disposed.trans gone) (digest ▸ works) (digest ▸ freed)

/-! ## what a ledger says -/

theorem nodup_eraseDups {α : Type} [DecidableEq α] : (l : List α) → l.eraseDups.Nodup
  | [] => nodup_nil
  | a :: l => by
    have shorter : (l.filter fun b => !b == a).length ≤ l.length := length_filter_le _ _
    rw [eraseDups_cons, nodup_cons]
    refine ⟨?_, nodup_eraseDups _⟩
    rw [mem_eraseDups, mem_filter]
    simp
termination_by l => l.length

theorem upload?_of_frees (frees : e.frees = true) : e.upload? = none := by
  obtain ⟨name, id, ⟨call, failure⟩⟩ := e
  cases call with
  | release d => rfl
  | _ => cases frees

section
variable {work releases : List Event} {digest : Digest}

section
variable (freed : Freed digest work releases)
include freed

theorem Freed.call (member : e ∈ releases) : e.attempt.call = .release digest := by
  have there := mem_map_of_mem (f := fun e => (e.device, e.attempt.call)) member
  rw [show releases.map _ = _ from freed] at there
  obtain ⟨name, -, eq⟩ := mem_map.1 there
  exact (Prod.mk.inj eq).2.symm

theorem Freed.frees (member : e ∈ releases) : e.frees = true := by
  unfold Event.frees
  rw [freed.call member]
  rfl

theorem Freed.uploads :
    (work ++ releases).filterMap Event.upload? = work.filterMap Event.upload? := by
  have none : releases.filterMap Event.upload? = [] :=
    filterMap_eq_nil_iff.2 fun e member => upload?_of_frees (freed.frees member)
  rw [filterMap_append, none, append_nil]

theorem Freed.countP (name : String) :
    releases.countP (fun e => e.device == name && e.frees) = (holders work).count name := by
  have same : releases.map Event.device = holders work := by
    have devices := congrArg (List.map Prod.fst) freed
    rw [map_map, map_map] at devices
    exact devices.trans (map_id _)
  rw [← same, List.count, countP_map]
  refine countP_congr fun e member => ?_
  simp [freed.frees member]

end

end

/-- nothing is uploaded to a device for one size a second time -/
theorem Ledger.once (h : Ledger s calls) : (calls.filterMap Event.upload?).Nodup := by
  cases h with
  | live _ works _ => exact works.once
  | disposed _ works freed =>
    rw [freed.uploads]
    exact works.once

theorem Ledger.held (h : Ledger s calls) (member : e ∈ calls) {d : Digest}
    (holds : e.attempt.call.held = some d) : d = s.program.digest := by
  cases h with
  | live _ works _ => exact works.held e member d holds
  | disposed _ works freed =>
    rcases mem_append.1 member with member | member
    · exact works.held e member d holds
    · rw [freed.call member] at holds
      exact (Option.some.inj holds).symm

theorem Working.countP_frees {digest : Digest} (h : Working digest calls) (name : String) :
    calls.countP (fun e => e.device == name && e.frees) = 0 := by
  refine countP_eq_zero.2 fun e member => ?_
  simp [h.frees e member]

theorem Ledger.kept (h : Ledger s calls) (live : s.disposed = false) (name : String) :
    calls.countP (fun e => e.device == name && e.frees) = 0 := by
  cases h with
  | live _ works _ => exact works.countP_frees name
  | disposed gone _ _ => cases live.symm.trans gone

theorem Ledger.freed (h : Ledger s calls) (gone : s.disposed = true) (name : String) :
    calls.countP (fun e => e.device == name && e.frees) = (holders calls).count name := by
  cases h with
  | live live _ _ => cases live.symm.trans gone
  | @disposed work releases _ works freed =>
    have same : holders (work ++ releases) = holders work := by
      unfold holders
      rw [freed.uploads]
    rw [countP_append, works.countP_frees, zero_add, freed.countP, same]

theorem Ledger.last (h : Ledger s calls) {before after : List Event}
    (split : calls = before ++ after) (member : e ∈ before) (frees : e.frees = true) :
    ∀ e ∈ after, e.frees = true := by
  cases h with
  | live _ works _ =>
    have none := works.frees e (split ▸ mem_append_left after member)
    cases none.symm.trans frees
  | @disposed work releases _ works freed =>
    rcases append_eq_append_iff.1 split with ⟨rest, -, tail⟩ | ⟨rest, head, -⟩
    · intro x there
      exact freed.frees (tail ▸ mem_append_right rest there)
    · have none := works.frees e (head ▸ mem_append_left rest member)
      cases none.symm.trans frees

theorem mem_holders :
    name ∈ holders calls ↔ ∃ size, (⟨name, size⟩ : Upload) ∈ calls.filterMap Event.upload? := by
  unfold holders
  rw [mem_eraseDups, mem_map]
  constructor
  · rintro ⟨⟨_, size⟩, there, rfl⟩
    exact ⟨size, there⟩
  · rintro ⟨size, there⟩
    exact ⟨_, there, rfl⟩

end

/-! ## runs -/

/-- what a run on a device does to a state, and its calls -/
structure Ran (s : ExecutionState) (name : String) (s' : ExecutionState) (t : Trace) : Prop where
  same : SameState s s'
  disposed : s.disposed = true → t = []
  uploads : s'.uploads = s.uploads ++ t.filterMap (Attempt.upload? name)
  once : s.uploads.Nodup → s'.uploads.Nodup
  frees : ∀ a ∈ t, a.call.frees = false
  held : ∀ a ∈ t, ∀ d, a.call.held = some d → d = s.program.digest

section
variable {s s' : ExecutionState} {device : Device} {name : String} {size : UInt32} {t : Trace}

theorem ensureUploaded_cases (s : ExecutionState) (name : String)
    (device : Device) (size : UInt32) :
    (s.disposed = true ∧ (s.ensureUploaded name device size).run.run [] = (.error .disposed, [])) ∨
    (⟨name, size⟩ ∈ s.uploads ∧ s.disposed = false ∧
      (s.ensureUploaded name device size).run.run [] = (.ok s, [])) ∨
    (⟨name, size⟩ ∉ s.uploads ∧ s.disposed = false ∧
      ((∃ failure, (s.ensureUploaded name device size).run.run [] =
          (.error (.upload failure), [⟨.upload s.program.digest size, some failure⟩])) ∨
        (s.ensureUploaded name device size).run.run [] =
          (.ok { s with uploads := s.uploads ++ [⟨name, size⟩] },
            [⟨.upload s.program.digest size, none⟩]))) := by
  unfold ExecutionState.ensureUploaded
  cases disposed : s.disposed with
  | true => exact .inl ⟨rfl, rfl⟩
  | false =>
    by_cases known : ⟨name, size⟩ ∈ s.uploads
    · rw [if_pos (contains_iff_mem.2 known)]
      exact .inr (.inl ⟨known, rfl, rfl⟩)
    · rw [if_neg fun h => known (contains_iff_mem.1 h)]
      refine .inr (.inr ⟨known, rfl, ?_⟩)
      rw [if_neg Bool.false_ne_true, run_bind, run_must]
      cases device [] (.upload s.program.digest size) with
      | some failure => exact .inl ⟨failure, rfl⟩
      | none => exact .inr rfl

theorem phase_runUploaded (arrivals : Arrivals) (segment : Segment) {a : Attempt}
    (member : a ∈ execute device t (stagedBlocks s arrivals segment ++ [readbackCalls s.program])) :
    1 ≤ a.call.phase ∧ a.call.phase ≤ 3 := by
  have called := (execute_called device t _).subset (mem_map_of_mem member)
  rw [flatten_append, flatten_singleton] at called
  unfold stagedBlocks at called
  rcases mem_append.1 called with called | called
  · rw [flatten_cons] at called
    rcases mem_cons.1 called with eq | called
    · rw [eq]
      exact ⟨Nat.le_refl 1, (by decide : 1 ≤ 3)⟩
    · rw [phase_stageBlocks called]
      decide
  · rw [phase_readbackCalls called]
    decide

theorem upload?_of_phase {a : Attempt} (later : 1 ≤ a.call.phase) : a.upload? name = none := by
  obtain ⟨call, failure⟩ := a
  cases call with
  | upload d n => exact absurd later (by decide : ¬ 1 ≤ 0)
  | _ => rfl

theorem frees_of_phase {call : Call} (early : call.phase ≤ 3) : call.frees = false := by
  cases call with
  | release d => exact absurd early (by decide : ¬ 4 ≤ 3)
  | _ => rfl

theorem held_of_phase {call : Call} (later : 1 ≤ call.phase) (early : call.phase ≤ 3) :
    call.held = none := by
  cases call with
  | upload d n => exact absurd later (by decide : ¬ 1 ≤ 0)
  | release d => exact absurd early (by decide : ¬ 4 ≤ 3)
  | _ => rfl

theorem Ran.more (h : Ran s name s' t) (live : s.disposed = false) {later : Trace}
    (phases : ∀ a ∈ later, 1 ≤ a.call.phase ∧ a.call.phase ≤ 3) : Ran s name s' (t ++ later) where
  same := h.same
  disposed gone := by cases live.symm.trans gone
  uploads := by
    have none : later.filterMap (Attempt.upload? name) = [] :=
      filterMap_eq_nil_iff.2 fun a member => upload?_of_phase (phases a member).1
    rw [filterMap_append, none, append_nil]
    exact h.uploads
  once := h.once
  frees := forall_mem_append.2 ⟨h.frees, fun a member => frees_of_phase (phases a member).2⟩
  held := by
    refine forall_mem_append.2 ⟨h.held, fun a member d holds => ?_⟩
    rw [held_of_phase (phases a member).1 (phases a member).2] at holds
    cases holds

theorem ran_nothing (s : ExecutionState) (name : String) : Ran s name s [] where
  same := ⟨rfl, rfl, rfl, rfl⟩
  disposed _ := rfl
  uploads := (append_nil _).symm
  once := id
  frees := nofun
  held := nofun

theorem ran_failed (live : s.disposed = false) (failure : String) :
    Ran s name s [⟨.upload s.program.digest size, some failure⟩] where
  same := ⟨rfl, rfl, rfl, rfl⟩
  disposed gone := by cases live.symm.trans gone
  uploads := (append_nil _).symm
  once := id
  frees a member := by rw [mem_singleton.1 member]; rfl
  held a member d holds := by
    rw [mem_singleton.1 member] at holds
    exact (Option.some.inj holds).symm

theorem ran_uploaded (live : s.disposed = false) (new : ⟨name, size⟩ ∉ s.uploads) :
    Ran s name { s with uploads := s.uploads ++ [⟨name, size⟩] }
      [⟨.upload s.program.digest size, none⟩] where
  same := ⟨rfl, rfl, rfl, rfl⟩
  disposed gone := by cases live.symm.trans gone
  uploads := rfl
  once nodup := nodup_append.2 ⟨nodup, nodup_singleton _, fun a there b last =>
    fun eq => new (mem_singleton.1 last ▸ eq ▸ there)⟩
  frees a member := by rw [mem_singleton.1 member]; rfl
  held a member d holds := by
    rw [mem_singleton.1 member] at holds
    exact (Option.some.inj holds).symm

theorem run_ran (s : ExecutionState) (name : String) (device : Device) (segment : Segment) :
    Ran s name (s.run name device segment).2.1 (s.run name device segment).2.2 := by
  have later (s' : ExecutionState) (t : Trace) :=
    (@run_runUploaded device s' Stage.dispatches segment t).1
  unfold ExecutionState.run ExecutionState.runIn
  cases checkSize s.program segment.size with
  | error e => exact ran_nothing s name
  | ok _ =>
    rcases ensureUploaded_cases s name device segment.size with
      ⟨-, eq⟩ | ⟨-, live, eq⟩ | ⟨new, live, ⟨failure, eq⟩ | eq⟩ <;> rw [eq] <;> dsimp only
    · exact ran_nothing s name
    · show Ran s name s ((runUploaded device Stage.dispatches s segment).run.run []).2
      rw [later]
      exact (ran_nothing s name).more live fun a => phase_runUploaded _ _
    · exact ran_failed live failure
    · let held : ExecutionState := { s with uploads := s.uploads ++ [⟨name, segment.size⟩] }
      show Ran s name held ((runUploaded device Stage.dispatches held segment).run.run _).2
      rw [later]
      exact (ran_uploaded live new).more live fun a => phase_runUploaded _ _

end

/-! ## ledgers grow -/

def eventsOf (id : Nat) (calls : List (String × Attempt)) : List Event :=
  calls.map fun c => ⟨c.1, id, c.2⟩

theorem mem_eventsOf {id : Nat} {t : Trace} :
    e ∈ eventsOf id (t.map (name, ·)) ↔ ∃ a ∈ t, ⟨name, id, a⟩ = e := by
  unfold eventsOf
  rw [map_map]
  exact mem_map

section
variable {s s' : ExecutionState} {calls : List Event}

theorem Ledger.run (h : Ledger s calls) {t : Trace} (ran : Ran s name s' t) (id : Nat) :
    Ledger s' (calls ++ eventsOf id (t.map (name, ·))) := by
  cases h with
  | live live works listed =>
    have uploads : (calls ++ eventsOf id (t.map (name, ·))).filterMap Event.upload? =
        s'.uploads := by
      rw [filterMap_append, listed, ran.uploads]
      unfold eventsOf
      rw [filterMap_map, filterMap_map]
      rfl
    refine .live (ran.same.disposed.trans live) ⟨?_, ?_, ?_⟩ uploads
    · refine forall_mem_append.2 ⟨works.frees, fun e member => ?_⟩
      obtain ⟨a, there, rfl⟩ := mem_eventsOf.1 member
      exact ran.frees a there
    · rw [ran.same.program]
      refine forall_mem_append.2 ⟨works.held, fun e member => ?_⟩
      obtain ⟨a, there, rfl⟩ := mem_eventsOf.1 member
      exact ran.held a there
    · rw [uploads]
      exact ran.once (listed ▸ works.once)
  | disposed gone works freed =>
    have nothing := ran.disposed gone
    have uploads : s'.uploads = s.uploads := by
      rw [ran.uploads, nothing]
      exact append_nil _
    rw [nothing]
    show Ledger s' (_ ++ [])
    rw [append_nil]
    exact (Ledger.disposed gone works freed).same (congrArg _ ran.same.program)
      uploads ran.same.disposed

theorem Ledger.dispose (h : Ledger s calls) (live : s.disposed = false) (device : String → Device)
    (id : Nat) : Ledger (s.dispose device).1 (calls ++ eventsOf id (s.dispose device).2) := by
  cases h with
  | disposed gone => cases live.symm.trans gone
  | live _ works listed =>
    unfold ExecutionState.dispose
    rw [if_neg (live ▸ Bool.false_ne_true)]
    refine .disposed rfl works ?_
    unfold Freed holders eventsOf
    rw [listed, map_map, map_map]
    rfl

end

end Terrain.Pipeline
