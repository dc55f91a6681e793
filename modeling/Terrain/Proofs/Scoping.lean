import Terrain.Proofs.Inline
import Terrain.Proofs.Invariant

/-!
# Scoping of generated functions

What it means for a function that its lines use what is at hand.  A line may use the arguments, what
earlier lines introduced, and slots of the parameter buffer at their shapes; a name is introduced
once; and what is stored in an output is not set again.

* `WellScoped`         the property, told by the lines before and after each line;
* `Scoped`             the same as a walk along the lines, which knows the variables at hand;
* `Scoped.append`      lines may follow that introduce new variables;
* `Scoped.wellScoped`  the walk is enough;
* `wellScoped_nested`  the functions of fractal and cellular sampling are well scoped.
-/

namespace Terrain.Kernel

def Line.introduces : Line → Option Var
  | .bind v _ _ | .letVar v _ | .declare v _ | .start v _ | .loop v _ _ _ => some v
  | _ => none

def Line.uses : Line → List Symbol
  | .bind _ _ e | .letVar _ e | .start _ e | .store _ e | .test e | .otherwise e => e.symbols
  | .assign v e => .var v :: e.symbols
  | .call _ args v => args ++ [.var v]
  | .declare _ _ | .loop _ _ _ _ | .close | .verbatim _ => []

theorem Line.sets_of_introduces {l : Line} {v : Var} (h : l.introduces = some v) :
    l.sets = some v := by
  cases l <;> cases h <;> rfl

def introduced (ls : List Indented) : List Var := ls.filterMap fun l => l.line.introduces

/-- a value that `v` is given is made of `u` -/
def Feeds (ls : List Indented) (v u : Var) : Prop :=
  ∃ l ∈ ls, l.line.sets = some v ∧ .var u ∈ l.line.uses

/-- an expression depends on a variable, by the lines that give values to variables -/
def DependsOn (ls : List Indented) (e : Expr) (u : Var) : Prop :=
  ∃ v, .var v ∈ e.symbols ∧ Relation.ReflTransGen (Feeds ls) v u

end Terrain.Kernel

namespace Terrain.Compile

open Kernel Hash List

variable {p : Program} {known : List Var}

/-! ## functions -/

/-- a symbol is at hand behind some lines of a function: an argument, a variable that one of the
lines introduced, or a slot of the parameter buffer at its shape -/
def AtHand (p : Program) (s : Scope) (before : List Indented) : Symbol → Prop
  | .var v => (∃ a ∈ s.args, a.output = false ∧ a.name = v.text) ∨ v ∈ introduced before
  | .param k shape => ∃ q, p.parameters[k]? = some q ∧ q.shape = shape

structure WellScoped (p : Program) (s : Scope) : Prop where
  /-- every line is made of symbols -/
  written : ∀ l ∈ s.lines.toList, ∀ text, l.line ≠ .verbatim text
  used : ∀ before l after, s.lines.toList = before ++ l :: after →
    ∀ x ∈ l.line.uses, AtHand p s before x
  sampled : ∀ b ∈ s.samples, ∃ buffer ∈ p.buffers, buffer.symbol = b
  /-- no name is introduced twice -/
  distinct : (s.args.map Argument.name ++ (introduced s.lines.toList).map Var.text).Nodup
  /-- every output argument is stored to once -/
  stored : s.lines.toList.filterMap (fun l => l.line.stores) =
    (s.args.filter Argument.output).map Argument.name
  /-- what a stored value depends on is introduced before, and is not set after -/
  settled : ∀ before depth output e after,
    s.lines.toList = before ++ ⟨depth, .store output e⟩ :: after →
      ∀ u, DependsOn s.lines.toList e u →
        AtHand p s before (.var u) ∧ ∀ l ∈ after, l.line.sets ≠ some u

theorem WellScoped.congr {s s' : Scope} (h : WellScoped p s) (args : s'.args = s.args)
    (lines : s'.lines = s.lines) : WellScoped p s' := by
  obtain ⟨written, used, sampled, distinct, stored, settled⟩ := h
  have same (before : List Indented) (x : Symbol) (at_ : AtHand p s before x) :
      AtHand p s' before x := by
    cases x with
    | var v => exact at_.imp_left fun ⟨a, member, rest⟩ => ⟨a, args ▸ member, rest⟩
    | param k shape => exact at_
  refine ⟨lines ▸ written, ?_, ?_, ?_, ?_, ?_⟩
  · exact fun before l after split x member =>
      same before x (used before l after (lines ▸ split) x member)
  · unfold Scope.samples
    rw [lines]
    exact sampled
  · rw [args, lines]
    exact distinct
  · rw [args, lines]
    exact stored
  · intro before depth output e after split u depends
    obtain ⟨hand, unset⟩ := settled before depth output e after (lines ▸ split) u (lines ▸ depends)
    exact ⟨same before _ hand, unset⟩

/-! ## walks -/

/-- a symbol can be read: a known variable, or a slot at its shape -/
def Readable (slot : Nat → Shape → Prop) (known : List Var) : Symbol → Prop
  | .var v => v ∈ known
  | .param k shape => slot k shape

/-- a line fits the variables at hand -/
structure Fits (slot : Nat → Shape → Prop) (known : List Var) (l : Line) : Prop where
  uses : ∀ x ∈ l.uses, Readable slot known x
  new : ∀ v, l.introduces = some v → v ∉ known
  written : ∀ text, l ≠ .verbatim text

/-- none of the variables is set -/
def Leaves (known : List Var) (ls : List Indented) : Prop :=
  ∀ l ∈ ls, ∀ v, l.line.sets = some v → v ∉ known

def Scoped (slot : Nat → Shape → Prop) : List Var → List Indented → Prop
  | _, [] => True
  | known, l :: rest =>
    Fits slot known l.line ∧ (l.line.stores.isSome = true → Leaves known rest) ∧
      Scoped slot (known ++ l.line.introduces.toList) rest

section
variable {slot slot' : Nat → Shape → Prop} {known : List Var} {xs ys ls : List Indented}

theorem introduced_append (xs ys : List Indented) :
    introduced (xs ++ ys) = introduced xs ++ introduced ys := filterMap_append

theorem introduced_cons (l : Indented) (ls : List Indented) :
    introduced (l :: ls) = l.line.introduces.toList ++ introduced ls := by
  unfold introduced
  cases h : l.line.introduces with
  | none => rw [filterMap_cons_none (by exact h)]; rfl
  | some v => rw [filterMap_cons_some (by exact h)]; rfl

theorem Readable.mono {x : Symbol} (h : Readable slot known x) {known' : List Var}
    (slots : ∀ k shape, slot k shape → slot' k shape) (more : known ⊆ known') :
    Readable slot' known' x := by
  cases x with
  | var v => exact more h
  | param k shape => exact slots k shape h

theorem Scoped.mono (h : Scoped slot known ls) (slots : ∀ k shape, slot k shape → slot' k shape) :
    Scoped slot' known ls := by
  induction ls generalizing known with
  | nil => trivial
  | cons l ls ih =>
    obtain ⟨fits, stored, rest⟩ := h
    exact ⟨⟨fun x member => (fits.uses x member).mono slots fun _ h => h, fits.new, fits.written⟩,
      stored, ih rest⟩

theorem Scoped.append (h : Scoped slot known xs) (h' : Scoped slot (known ++ introduced xs) ys)
    (leaves : Leaves (known ++ introduced xs) ys) : Scoped slot known (xs ++ ys) := by
  induction xs generalizing known with
  | nil => simpa [introduced] using h'
  | cons l xs ih =>
    obtain ⟨fits, stored, rest⟩ := h
    rw [introduced_cons, ← append_assoc] at h' leaves
    refine ⟨fits, fun stores m member v sets => ?_, ih rest h' leaves⟩
    rcases mem_append.1 member with member | member
    · exact stored stores m member v sets
    · intro there
      exact leaves m member v sets (mem_append_left _ (mem_append_left _ there))

theorem Scoped.drop (h : Scoped slot known (xs ++ ys)) :
    Scoped slot (known ++ introduced xs) ys := by
  induction xs generalizing known with
  | nil => simpa [introduced] using h
  | cons l xs ih =>
    rw [introduced_cons, ← append_assoc]
    exact ih h.2.2

theorem Scoped.fits (h : Scoped slot known ls) {before after : List Indented} {l : Indented}
    (split : ls = before ++ l :: after) : Fits slot (known ++ introduced before) l.line := by
  subst split
  exact h.drop.1

theorem Scoped.nodup (h : Scoped slot known ls) (distinct : known.Nodup) :
    (known ++ introduced ls).Nodup := by
  induction ls generalizing known with
  | nil => simpa [introduced] using distinct
  | cons l ls ih =>
    obtain ⟨fits, -, rest⟩ := h
    rw [introduced_cons, ← append_assoc]
    refine ih rest ?_
    cases introduces : l.line.introduces with
    | none => simpa using distinct
    | some v =>
      refine nodup_append.2 ⟨distinct, nodup_singleton v, ?_⟩
      intro u there w member same
      obtain rfl := mem_singleton.1 member
      exact fits.new w introduces (same ▸ there)

/-- what a stored value depends on is at hand where it is stored, and is left alone from there -/
theorem Scoped.settled (h : Scoped slot known ls) {before after : List Indented} {depth : Nat}
    {output : String} {e : Expr} (split : ls = before ++ ⟨depth, .store output e⟩ :: after)
    {u : Var} (depends : DependsOn ls e u) :
    u ∈ known ++ introduced before ∧ ∀ l ∈ after, l.line.sets ≠ some u := by
  have store := h.fits split
  have leaves : Leaves (known ++ introduced before) after := by
    subst split
    exact h.drop.2.1 rfl
  obtain ⟨v, member, path⟩ := depends
  suffices there : u ∈ known ++ introduced before from
    ⟨there, fun l after sets => leaves l after u sets there⟩
  induction path with
  | refl => exact store.uses _ member
  | @tail x y _ feeds ih =>
    -- a line that gives `x` a value stands before the store, and so does what it uses
    obtain ⟨l, there, sets, uses⟩ := feeds
    rw [split] at there
    rcases mem_append.1 there with early | late
    · obtain ⟨b, b', rfl⟩ := append_of_mem early
      have earlier : ls = b ++ l :: (b' ++ ⟨depth, .store output e⟩ :: after) := by
        rw [split, append_assoc, cons_append]
      have known := (h.fits earlier).uses _ uses
      rw [introduced_append, ← append_assoc]
      exact mem_append_left _ known
    · rcases mem_cons.1 late with rfl | late
      · cases sets
      · exact absurd ih (leaves l late x sets)

theorem Scoped.wellScoped {s : Scope} (h : Scoped slot known s.lines.toList)
    (slots : ∀ k shape, slot k shape → ∃ q, p.parameters[k]? = some q ∧ q.shape = shape)
    (args : ∀ v ∈ known, ∃ a ∈ s.args, a.output = false ∧ a.name = v.text)
    (sampled : ∀ b ∈ s.samples, ∃ buffer ∈ p.buffers, buffer.symbol = b)
    (distinct : (s.args.map Argument.name ++ (introduced s.lines.toList).map Var.text).Nodup)
    (stored : s.lines.toList.filterMap (fun l => l.line.stores) =
      (s.args.filter Argument.output).map Argument.name) : WellScoped p s := by
  have hand (before : List Indented) (x : Symbol)
    (h : Readable slot (known ++ introduced before) x) :
      AtHand p s before x := by
    cases x with
    | var v => exact (mem_append.1 h).imp_left (args v)
    | param k shape => exact slots k shape h
  refine ⟨fun l member => ?_, ?_, sampled, distinct, stored, ?_⟩
  · obtain ⟨before, after, split⟩ := append_of_mem member
    exact (h.fits split).written
  · exact fun before l after split x member => hand before x ((h.fits split).uses x member)
  · intro before depth output e after split u depends
    obtain ⟨there, unset⟩ := h.settled split depends
    exact ⟨hand before (.var u) there, unset⟩

end

/-! ## nested functions -/

theorem wellScoped_of_scoped {s : Scope} (h : Scoped (fun _ _ => False) known s.lines.toList)
    (args : ∀ v ∈ known, ∃ a ∈ s.args, a.output = false ∧ a.name = v.text) (dry : s.samples = [])
    (distinct : (s.args.map Argument.name ++ (introduced s.lines.toList).map Var.text).Nodup)
    (stored : s.lines.toList.filterMap (fun l => l.line.stores) =
      (s.args.filter Argument.output).map Argument.name) : WellScoped p s :=
  h.wellScoped (fun _ _ => False.elim) args (dry ▸ nofun) distinct stored

/-- does a line use, of the variables, only those that are known, and introduce another one? -/
def fitsKnown (known : List Var) (l : Line) : Bool :=
  l.uses.all (fun x => match x with | .var v => known.contains v | .param _ _ => false) &&
    l.introduces.all (fun v => !known.contains v) &&
      match l with
      | .verbatim _ => false
      | _ => true

/-- the walk along a body without slots, which stores at its end if at all -/
def fitsAll : List Var → List Indented → Bool
  | _, [] => true
  | known, l :: rest => fitsKnown known l.line && (l.line.stores.isNone || rest.isEmpty) &&
      fitsAll (known ++ l.line.introduces.toList) rest

theorem fits_of_known {slot : Nat → Shape → Prop} {l : Line} (h : fitsKnown known l = true) :
    Fits slot known l := by
  unfold fitsKnown at h
  simp only [Bool.and_eq_true] at h
  obtain ⟨⟨uses, new⟩, written⟩ := h
  refine ⟨fun x member => ?_, fun v introduces => ?_, fun text same => ?_⟩
  · have known := all_eq_true.1 uses x member
    cases x with
    | var v => exact contains_iff_mem.1 known
    | param k shape => cases known
  · rw [introduces] at new
    simpa using new
  · rw [same] at written
    cases written

theorem scoped_of_fitsAll {slot : Nat → Shape → Prop} {ls : List Indented}
    (h : fitsAll known ls = true) : Scoped slot known ls := by
  induction ls generalizing known with
  | nil => trivial
  | cons l ls ih =>
    unfold fitsAll at h
    simp only [Bool.and_eq_true, Bool.or_eq_true, List.isEmpty_iff, Option.isNone_iff_eq_none] at h
    obtain ⟨⟨fits, stored⟩, rest⟩ := h
    refine ⟨fits_of_known fits, fun stores => ?_, ih rest⟩
    rcases stored with none | rfl
    · rw [none] at stores
      cases stores
    · exact fun _ => nofun

theorem eq_of_isVector {s : Shape} (h : s.isVector = true) : s = .vec2 ∨ s = .vec3 := by
  cases s with
  | vec2 => exact .inl rfl
  | vec3 => exact .inr rfl
  | _ => cases h

theorem exists_nestedArgument (i : Nat) {ws : List Wire} {j : Nat} (inside : j < ws.length) :
    ∃ a ∈ nestedArguments i ws, a.output = false ∧ a.name = (Var.input (i + j)).text := by
  induction ws generalizing i j with
  | nil => cases inside
  | cons w ws ih =>
    cases j with
    | zero => exact ⟨_, .head _, rfl, rfl⟩
    | succ j =>
      obtain ⟨a, member, input, name⟩ := ih (i + 1) (Nat.lt_of_succ_lt_succ inside)
      rw [add_right_comm] at name
      exact ⟨a, .tail _ member, input, name⟩

section
variable {p : Program} {c : Context} {caller : ScopeId} {spec : Nested}

theorem nested_args (ws : List Wire) (t : Template) :
    ∀ v ∈ (List.range ws.length).map Var.input, ∃ a ∈ (c.nestedScope caller spec ws t).args,
      a.output = false ∧ a.name = v.text := by
  intro v member
  obtain ⟨j, inside, rfl⟩ := mem_map.1 member
  obtain ⟨a, there, input, name⟩ := exists_nestedArgument 0 (mem_range.1 inside)
  rw [zero_add] at name
  refine ⟨a, mem_map.2 ⟨a, there, ?_⟩, input, name⟩
  rw [if_neg (by simp [input])]

theorem wellScoped_fractal (kind : NoiseKind) {point : Shape} (vector : point.isVector = true)
    (octaves : Int) (a b d : Wire) :
    WellScoped p (c.nestedScope caller spec [a, b, d] (fractalTemplate kind point octaves)) := by
  have body : fitsAll ((List.range 3).map Var.input)
      (Context.nestedLines 3 (fractalTemplate kind point octaves)) = true := by
    rcases eq_of_isVector vector with rfl | rfl <;> rfl
  refine wellScoped_of_scoped (scoped_of_fitsAll body) (nested_args [a, b, d] _) ?_ ?_ rfl
  · rcases eq_of_isVector vector with rfl | rfl <;> rfl
  · show (List.map Var.text [.input 0, .input 1, .input 2] ++ ["out_value"] ++
      List.map Var.text [.copy 0, .copy 1, .copy 2, .named "sum", .named "amp", .named "freq",
        .named "norm", .named "i"]).Nodup
    decide

theorem cellularTemplate_known (metric : Metric) (feature : CellFeature) (point : Shape) :
    ∃ m ∈ [Metric.euclidean, .manhattan, .chebyshev], ∃ f ∈ [CellFeature.nearest, .second, .gap],
      cellularTemplate metric feature point = cellularTemplate m f point := by
  obtain ⟨m, member, same⟩ : ∃ m ∈ [Metric.euclidean, .manhattan, .chebyshev],
      ∀ e, Expr.metric metric e point = Expr.metric m e point := by
    cases metric with
    | unknown code => exact ⟨.euclidean, by simp, fun _ => rfl⟩
    | _ => exact ⟨_, by simp, fun _ => rfl⟩
  obtain ⟨f, member', same'⟩ : ∃ f ∈ [CellFeature.nearest, .second, .gap],
      cellResult feature = cellResult f := by
    cases feature with
    | unknown code => exact ⟨.nearest, by simp, rfl⟩
    | _ => exact ⟨_, by simp, rfl⟩
  refine ⟨m, member, f, member', ?_⟩
  unfold cellularTemplate
  rw [same, same']

theorem wellScoped_cellular (metric : Metric) (feature : CellFeature) {point : Shape}
    (vector : point.isVector = true) (a : Wire) :
    WellScoped p (c.nestedScope caller spec [a] (cellularTemplate metric feature point)) := by
  obtain ⟨m, member, f, member', same⟩ := cellularTemplate_known metric feature point
  have checked : ∀ m ∈ [Metric.euclidean, .manhattan, .chebyshev],
      ∀ f ∈ [CellFeature.nearest, .second, .gap], ∀ point ∈ [Shape.vec2, .vec3],
        let lines := Context.nestedLines 1 (cellularTemplate m f point)
        fitsAll ((List.range 1).map Var.input) lines = true ∧
          (lines.flatMap fun l => l.line.buffers) = [] ∧
          ((Var.input 0).text :: "out_value" :: (introduced lines).map Var.text).Nodup ∧
          (lines.filterMap fun l => l.line.stores) = ["out_value"] := by
    decide
  have there : point ∈ [Shape.vec2, .vec3] := by
    rcases eq_of_isVector vector with rfl | rfl <;> simp
  obtain ⟨body, dry, distinct, stored⟩ := checked m member f member' point there
  rw [same]
  exact wellScoped_of_scoped (scoped_of_fitsAll body) (nested_args [a] _) dry distinct stored

theorem wellScoped_nested {n : Node} {r : Routine} {t : Template} {ws : List Wire}
    (parts : nestedParts n = some (r, spec, t)) (inputs : n.inputs = ws.map some)
    (typed : n.typing = .ok n.shape) : WellScoped p (c.nestedScope caller spec ws t) := by
  rw [typing_inputs inputs] at typed
  unfold nestedParts at parts
  split at parts
  case h_1 kind octaves op =>
    cases parts
    rw [op] at typed
    obtain ⟨-, point, vector, shapes⟩ := typingOf_fractal typed
    obtain ⟨a, b, d, rfl⟩ := length_eq_three.1 (by simpa using congrArg List.length shapes)
    obtain rfl := (cons_eq_cons.1 shapes).1
    refine wellScoped_fractal kind ?_ octaves a b d
    unfold Node.inputShape
    rw [inputs]
    exact vector
  case h_2 metric feature op =>
    cases parts
    rw [op] at typed
    obtain ⟨-, point, vector, shapes⟩ := typingOf_cellular typed
    obtain ⟨a, rfl⟩ := length_eq_one_iff.1 (by simpa using congrArg List.length shapes)
    obtain rfl := (cons_eq_cons.1 shapes).1
    refine wellScoped_cellular metric feature ?_ a
    unfold Node.inputShape
    rw [inputs]
    exact vector
  case h_3 => cases parts

end

end Terrain.Compile
