import Terrain.Proofs.Inline
import Terrain.Proofs.Invariant

/-!
# Functions read back as terms

A function body is read line by line, and every local is replaced by the term of its defining
expression.  What is stored in the outputs are then terms without locals.  The names in a body are
understood through the tables of the compilation, which only grow, so that a term stays what it is
while more code is generated.

* `Unfolding`             the terms of variables and of outputs after some lines;
* `Scope.unfold`          those of a whole function;
* `unfold_mono`           more is understood when more names are;
* `Context.meanings`      what the tables of a compilation say of names;
* `Reaches.meanings`, `Reaches.slots`   they say it for ever.
-/

namespace Terrain.Compile

open Kernel List

variable {v : Var} {s s' : Scope} {more : List Indented} {b : String} {d : DispatchId}

/-! ## reading lines -/

/-- what the names in a function body stand for: the keys of nested functions, and the caches that
are read by samples of buffers -/
structure Meanings where
  function : String → Option String
  read : String → Expr → Option NodeId

structure Unfolding where
  vars : Var → Option Inline
  stored : List (String × Option Inline)

namespace Unfolding

def start : Unfolding := ⟨fun v => if v = .position then some .position else none, []⟩

def symbol (u : Unfolding) : Symbol → Option Inline
  | .var v => u.vars v
  | .param slot shape => some (.slot slot shape)

def set (u : Unfolding) (v : Var) (t : Option Inline) : Unfolding :=
  { u with vars := fun w => if w = v then t else u.vars w }

/-- one line; a variable that changes its value has no term -/
def step (m : Meanings) (u : Unfolding) : Line → Unfolding
  | .bind v _ e | .letVar v e => u.set v (e.fill u.symbol m.read)
  | .call f args v =>
    u.set v ((m.function f).bind fun key => (gather u.symbol args).map (.function key))
  | .declare v _ | .start v _ | .assign v _ | .loop v _ _ _ => u.set v none
  | .store output e => { u with stored := u.stored ++ [(output, e.fill u.symbol m.read)] }
  | .test _ | .otherwise _ | .close | .verbatim _ => u

def run (m : Meanings) (u : Unfolding) (ls : List Indented) : Unfolding :=
  ls.foldl (fun u l => u.step m l.line) u

end Unfolding

def Scope.unfold (m : Meanings) (s : Scope) : Unfolding := Unfolding.start.run m s.lines.toList

section
variable {m m' : Meanings} {u u' : Unfolding}

/-- more names are understood -/
structure Meanings.Le (m m' : Meanings) : Prop where
  function : Extends m.function m'.function
  read : ∀ b i n, m.read b i = some n → m'.read b i = some n

/-- more terms are known -/
structure Unfolding.Le (u u' : Unfolding) : Prop where
  vars : Extends u.vars u'.vars
  stored : Forall₂ (fun a b => b.1 = a.1 ∧ ∀ t, a.2 = some t → b.2 = some t) u.stored u'.stored

theorem Unfolding.Le.refl (u : Unfolding) : u.Le u :=
  ⟨.refl _, forall₂_same.2 fun _ _ => ⟨rfl, fun _ h => h⟩⟩

theorem Unfolding.Le.symbol (h : u.Le u') : Extends u.symbol u'.symbol := by
  intro s t known
  cases s with
  | var v => exact h.vars v t known
  | param slot shape => exact known

theorem Unfolding.Le.set (h : u.Le u') (v : Var) {t t' : Option Inline}
    (more : ∀ x, t = some x → t' = some x) : (u.set v t).Le (u'.set v t') := by
  refine ⟨fun w x known => ?_, h.stored⟩
  simp only [Unfolding.set] at known ⊢
  split
  case isTrue same => exact more x (by simpa only [same, if_true] using known)
  case isFalse other => exact h.vars w x (by simpa only [other, if_false] using known)

theorem step_mono (names : m.Le m') (h : u.Le u') (l : Line) : (u.step m l).Le (u'.step m' l) := by
  cases l with
  | bind v shape e | letVar v e => exact h.set v fun x known => fill_mono h.symbol names.read known
  | call f args v =>
    refine h.set v fun x known => ?_
    obtain ⟨key, function, rest⟩ := Option.bind_eq_some_iff.1 known
    obtain ⟨ts, all, rfl⟩ := Option.map_eq_some_iff.1 rest
    exact Option.bind_eq_some_iff.2 ⟨key, names.function _ _ function,
      Option.map_eq_some_iff.2 ⟨ts, gather_mono h.symbol _ _ all, rfl⟩⟩
  | declare v shape | start v e | assign v e | loop v first relation last =>
    exact h.set v fun _ known => by cases known
  | store output e =>
    refine ⟨h.vars, rel_append h.stored (.cons ⟨rfl, fun t known => ?_⟩ .nil)⟩
    exact fill_mono h.symbol names.read known
  | test | otherwise | close | verbatim => exact h

theorem run_mono (names : m.Le m') (h : u.Le u') (ls : List Indented) :
    (u.run m ls).Le (u'.run m' ls) := by
  induction ls generalizing u u' with
  | nil => exact h
  | cons l ls ih => exact ih (step_mono names h l.line)

theorem unfold_mono (names : m.Le m') (s : Scope) : (s.unfold m).Le (s.unfold m') :=
  run_mono names (.refl _) _

/-! ## lines that leave things alone -/

theorem step_vars {l : Line} (other : l.sets ≠ some v) : (u.step m l).vars v = u.vars v := by
  cases l with
  | bind w shape e | letVar w e | declare w shape | start w e | assign w e | call f args w
  | loop w first relation last => exact if_neg fun same => other (congrArg some same.symm)
  | store | test | otherwise | close | verbatim => rfl

theorem run_vars {ls : List Indented} (other : ∀ l ∈ ls, l.line.sets ≠ some v) :
    (u.run m ls).vars v = u.vars v := by
  induction ls generalizing u with
  | nil => rfl
  | cons l ls ih =>
    refine (ih fun l member => other l (.tail _ member)).trans ?_
    exact step_vars (other l (.head _))

theorem step_stored {l : Line} (none : l.stores = none) : (u.step m l).stored = u.stored := by
  cases l with
  | store => cases none
  | _ => rfl

theorem run_stored {ls : List Indented} (none : ∀ l ∈ ls, l.line.stores = none) :
    (u.run m ls).stored = u.stored := by
  induction ls generalizing u with
  | nil => rfl
  | cons l ls ih =>
    refine (ih fun l member => none l (.tail _ member)).trans ?_
    exact step_stored (none l (.head _))

theorem unfold_outputs (s : Scope) :
    (s.unfold m).stored.map Prod.fst = s.lines.toList.filterMap fun l => l.line.stores := by
  have run (ls : List Indented) (u : Unfolding) : (u.run m ls).stored.map Prod.fst =
      u.stored.map Prod.fst ++ ls.filterMap fun l => l.line.stores := by
    induction ls generalizing u with
    | nil => exact (append_nil _).symm
    | cons l ls ih =>
      refine (ih (u.step m l.line)).trans ?_
      cases stores : l.line.stores with
      | none => rw [step_stored stores, filterMap_cons_none (by exact stores)]
      | some output =>
        rw [filterMap_cons_some (by exact stores)]
        cases line : l.line <;> rw [line] at stores <;> cases stores
        show (u.stored ++ [_]).map Prod.fst ++ _ = _
        rw [map_append, append_assoc]
        rfl
  exact run s.lines.toList .start

theorem set_of_known {t : Inline} (known : (s.unfold m).vars v = some t) :
    v = .position ∨ ∃ l ∈ s.lines.toList, l.line.sets = some v := by
  by_contra none
  obtain ⟨other, unset⟩ := not_or.1 none
  have same : (s.unfold m).vars v = Unfolding.start.vars v :=
    run_vars fun l member sets => unset ⟨l, member, sets⟩
  rw [same] at known
  simp [Unfolding.start, other] at known

theorem unfold_append (lines : s'.lines.toList = s.lines.toList ++ more) :
    s'.unfold m = (s.unfold m).run m more := by
  unfold Scope.unfold Unfolding.run
  rw [lines, foldl_append]

theorem unfold_symbol {low high : Nat} {x : Symbol} {t : Inline}
    (names : m.Le m') (lines : s'.lines.toList = s.lines.toList ++ more)
    (fresh : ∀ l ∈ more, l.line.Fresh low high) (old : ∀ l ∈ s.lines.toList, l.line.Fresh 0 low)
    (known : (s.unfold m).symbol x = some t) : (s'.unfold m').symbol x = some t := by
  cases x with
  | param slot shape => exact known
  | var v =>
    have kept : ((s.unfold m').run m' more).vars v = (s.unfold m').vars v := by
      refine run_vars fun l member sets => ?_
      obtain ⟨k, above, -, var⟩ := fresh l member v sets
      rcases set_of_known known with rfl | ⟨l', member', sets'⟩
      · rcases var with var | var <;> cases var
      · obtain ⟨k', -, below, var'⟩ := old l' member' v sets'
        rcases var with rfl | rfl <;> rcases var' with var' | var' <;> cases var' <;> omega
    rw [unfold_append lines]
    exact kept.trans ((unfold_mono names s).vars v t known)

theorem stored_eq {outputs : List (String × Inline)} {later : List (String × Option Inline)}
    (h : Forall₂ (fun a b => b.1 = a.1 ∧ ∀ t, a.2 = some t → b.2 = some t)
      (outputs.map fun o => (o.1, some o.2)) later) : later = outputs.map fun o =>
        (o.1, some o.2) := by
  induction outputs generalizing later with
  | nil =>
    cases h
    rfl
  | cons o os ih =>
    cases h with
    | cons head tail =>
      rw [ih tail]
      exact congrArg (· :: _) (Prod.ext head.1 (head.2 _ rfl))

theorem unfold_stored {outputs : List (String × Inline)} (names : m.Le m')
    (lines : s'.lines.toList = s.lines.toList ++ more) (none : ∀ l ∈ more, l.line.stores = none)
    (known : (s.unfold m).stored = outputs.map fun o => (o.1, some o.2)) :
    (s'.unfold m').stored = outputs.map fun o => (o.1, some o.2) := by
  rw [unfold_append lines, run_stored none]
  have le := (unfold_mono names s).stored
  rw [known] at le
  exact stored_eq le

end

/-! ## what the tables of a compilation say -/

/-- where a buffer is sampled at the world position, for a reduction -/
def sampleIndex (reduction : Int) : Expr :=
  .call2 (.routine .cacheIndex) (.var .position) (.literal s!"{reduction}u")

namespace Context

/-- the key of the nested function of a name -/
def functionKey (c : Context) (name : String) : Option String :=
  (c.nested.map fun p => ((c.scope p.2).name, p.1)).lookup name

/-- the dispatch that writes a buffer -/
def writer (c : Context) (buffer : String) : Option DispatchId :=
  (List.range c.entries.size).find? fun d => (c.entry d).buffers.contains buffer

/-- the cache that is read by a sample -/
def readBy (c : Context) (buffer : String) (index : Expr) : Option NodeId :=
  (c.writer buffer).bind fun d =>
    if index = sampleIndex (c.entry d).reduction then c.cached d else none

def meanings (c : Context) : Meanings := ⟨c.functionKey, c.readBy⟩

def slots (c : Context) : Slots where
  constant id := c.constantSlots.lookup id
  injected name := c.injectedSlots.lookup name

end Context

section
variable {c c' : Context} {done : List NodeId}

theorem writer_some (h : c.writer b = some d) : d < c.entries.size ∧ b ∈ (c.entry d).buffers := by
  have written := find?_some h
  exact ⟨mem_range.1 (mem_of_find?_eq_some h), contains_iff_mem.1 written⟩

section
variable (l : Linked done c) (k : Kept c) (positive : 0 < d) (inside : d < c.entries.size)
include l k positive inside

theorem Linked.writer_unique {e : DispatchId} (inside' : e < c.entries.size)
    (written : b ∈ (c.entry d).buffers) (written' : b ∈ (c.entry e).buffers) : e = d := by
  have own := l.buffer d inside positive b written
  by_cases main : e = 0
  · subst main
    obtain ⟨m, -, name⟩ := k.cacheNames d inside positive
    rw [name] at own
    exact absurd own (l.main b written' m)
  · have own' := l.buffer e inside' (Nat.pos_of_ne_zero main) b written'
    exact k.distinct e inside' d inside ((String.append_right_inj "buf_").1 (own'.symm.trans own))

theorem Linked.writer_eq (written : b ∈ (c.entry d).buffers) : c.writer b = some d := by
  cases found : c.writer b with
  | none =>
    have other := find?_eq_none.1 found d (mem_range.2 inside)
    exact absurd (contains_iff_mem.2 written) other
  | some e =>
    obtain ⟨there, written'⟩ := writer_some found
    rw [l.writer_unique k positive inside there written written']

end

theorem cached_positive (k : Kept c) {node : NodeId} (h : c.cached d = some node) : 0 < d := by
  obtain ⟨p, found, -⟩ := Option.map_eq_some_iff.1 h
  have same : p.2 = d := by simpa using find?_some found
  exact same ▸ (k.caches p (mem_of_find?_eq_some found)).1

theorem Linked.readBy_mono (reaches : Reaches c c') (k : Kept c) (l' : Linked done c') (b : String)
    (index : Expr) (node : NodeId) (h : c.readBy b index = some node) :
    c'.readBy b index = some node := by
  obtain ⟨d, writes, read⟩ := Option.bind_eq_some_iff.1 h
  obtain ⟨inside, written⟩ := writer_some writes
  split at read
  case isFalse => cases read
  case isTrue at_ =>
    have grows := reaches.grows.entry d inside
    have writes' := l'.writer_eq (reaches.kept k) (cached_positive k read)
      (inside.trans_le reaches.grows.entries)
      ((buffers_extends grows).subset written)
    refine Option.bind_eq_some_iff.2 ⟨d, writes', ?_⟩
    rw [grows.reduction, if_pos at_, reaches.cached inside]
    exact read

theorem lookup_cons {α β : Type} [BEq α] [LawfulBEq α] {l : List (α × β)} {a : α} {b : β}
    (unknown : l.lookup a = none) :
    Extends (fun x => l.lookup x) fun x => ((a, b) :: l).lookup x := by
  intro x y known
  exact lookup_cons_of_new unknown known

theorem Change.functionKey (h : Change c c') (k : Kept c) :
    Extends c.functionKey c'.functionKey := by
  have grows := h.grows
  -- functions keep their names
  have names : (c.nested.map fun p => ((c'.scope p.2).name, p.1)) =
      c.nested.map fun p => ((c.scope p.2).name, p.1) :=
    map_congr_left fun p member => by rw [(grows.scope _ (k.nested p member).1).name]
  have kept (same : c'.nested = c.nested) : Extends c.functionKey c'.functionKey := by
    intro name key known
    unfold Context.functionKey
    rw [same, names]
    exact known
  cases h with
  | nestedAdded caller spec inputs t unknown =>
    intro name key known
    show List.lookup name
      ((((c.nestedAdded caller spec inputs t).scope c.scopes.size).name, spec.key) ::
      c.nested.map fun p => (((c.nestedAdded caller spec inputs t).scope p.2).name, p.1)) = some key
    rw [names]
    refine lookup_cons ?_ name key known
    -- the new function has a new number
    rw [lookup_eq_none_iff, scope_nestedAdded]
    intro q member
    obtain ⟨p, there, rfl⟩ := mem_map.1 member
    obtain ⟨inside, -, stem, n, le, numbered⟩ := k.nested p there
    refine bne_iff_ne.2 fun same => ?_
    rw [numbered] at same
    have : c.names + 1 = n := @ending_inj spec.stem stem _ _ same
    omega
  | readAgain node reader id reads known => exact kept (by rw [readAgain_frame])
  | _ => exact kept rfl

theorem Reaches.functionKey (h : Reaches c c') (k : Kept c) :
    Extends c.functionKey c'.functionKey := by
  induction h with
  | refl => exact .refl _
  | tail chain change ih =>
    exact fun a b known => change.functionKey (Reaches.kept chain k) a b (ih a b known)

theorem Idle.meanings (h : Idle c c') : c'.meanings = c.meanings := by
  have entry : c'.entry = c.entry := funext h.entry
  unfold Context.meanings Context.functionKey Context.readBy Context.writer Context.cached
  rw [entry, h.entries, h.caches, h.nested]
  simp only [h.name]

theorem Idle.slots (h : Idle c c') : c'.slots = c.slots := by
  unfold Context.slots
  rw [h.constantSlots, h.injectedSlots]

/-- every nested function is told by its name -/
def Keyed (c : Context) : Prop := ∀ p ∈ c.nested, c.functionKey (c.scope p.2).name = some p.1

theorem Change.keyed (h : Change c c') (k : Kept c) (keyed : Keyed c) : Keyed c' := by
  have old : ∀ p ∈ c.nested, c'.functionKey (c'.scope p.2).name = some p.1 := by
    intro p member
    rw [(h.grows.scope _ (k.nested p member).1).name]
    exact h.functionKey k _ _ (keyed p member)
  cases h with
  | nestedAdded caller spec inputs t unknown =>
    exact forall_mem_cons.2 ⟨lookup_cons_self, old⟩
  | readAgain node reader id reads known =>
    intro p member
    rw [readAgain_frame] at member
    exact old p member
  | _ => exact old

theorem Reaches.keyed (h : Reaches c c') (k : Kept c) (keyed : Keyed c) : Keyed c' := by
  induction h with
  | refl => exact keyed
  | tail chain change ih => exact change.keyed (Reaches.kept chain k) ih

theorem FunctionOf.key {spec : Nested} {inputs : List Wire} {t : Template} {callee : ScopeId}
    (h : FunctionOf spec inputs t c callee c') : (spec.key, callee) ∈ c'.nested := by
  cases h with
  | again known => exact mem_of_lookup known
  | first unknown => exact .head _

theorem Reaches.meanings (h : Reaches c c') (k : Kept c) (l' : Linked done c') :
    c.meanings.Le c'.meanings :=
  ⟨h.functionKey k, Linked.readBy_mono h k l'⟩

theorem Change.slots (h : Change c c') :
    Extends c.slots.constant c'.slots.constant ∧ Extends c.slots.injected c'.slots.injected := by
  cases h with
  | constantAdded id v unknown => exact ⟨lookup_cons unknown, .refl _⟩
  | injectedAdded name v unknown => exact ⟨.refl _, lookup_cons unknown⟩
  | readAgain node reader id reads known =>
    rw [readAgain_frame]
    exact ⟨.refl _, .refl _⟩
  | _ => exact ⟨.refl _, .refl _⟩

theorem Reaches.slots (h : Reaches c c') :
    Extends c.slots.constant c'.slots.constant ∧ Extends c.slots.injected c'.slots.injected := by
  induction h with
  | refl => exact ⟨.refl _, .refl _⟩
  | tail _ change ih =>
    exact ⟨fun a b known => change.slots.1 a b (ih.1 a b known),
      fun a b known => change.slots.2 a b (ih.2 a b known)⟩

end

end Terrain.Compile
