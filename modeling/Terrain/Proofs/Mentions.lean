import Terrain.Proofs.Declarations
import Terrain.Proofs.Terms

/-!
# What generated code mentions

The texts of expressions and lines, read word by word.  Locals, types, lanes and numbers are words
that no program declares, so a text mentions nothing but the parameter buffer, the sampling offset
of the seed, and the routines that it calls.

* `isApart`              a stem of words that are not declared;
* `Expr.isClean`         an expression over locals and slots that calls these routines only;
* `ends_of_isClean`      such an expression mentions nothing else;
* `closes_of_isClean`    neither does such a line;
* `isClean_accepted`     the term of a node is of this kind;
* `Samples.clean`        and so are the functions of fractal and cellular sampling.
-/

namespace Terrain.Kernel

open Reader List

variable {a x : String} {e : Expr}

/-! ## words of one stem -/

/-- do two texts differ before one of them ends? -/
def differs : List Char → List Char → Bool
  | a :: as, b :: bs => a ≠ b || differs as bs
  | _, _ => false

/-- a word that differs from every name that a program declares, whatever is added to it -/
def isApart (w : List Char) : Bool :=
  isWord w &&
    (reservedStems ++ reservedNames ++ [['f', 'n'], ['s', 't', 'r', 'u', 'c', 't'],
      ['v', 'a', 'r']]).all
    (differs w)

section
variable {w r x : List Char}

theorem differs_append (h : differs w r = true) (x : List Char) :
    r.isPrefixOf (w ++ x) = false ∧ w ++ x ≠ r := by
  induction w generalizing r with
  | nil => cases h
  | cons a w ih =>
    cases r with
    | nil => cases h
    | cons b r =>
      rcases Bool.or_eq_true_iff.1 h with other | rest
      · have other : a ≠ b := of_decide_eq_true other
        constructor
        · simp [List.isPrefixOf, other.symm]
        · simp [other]
      · obtain ⟨unlike, unequal⟩ := ih rest
        constructor
        · simp [List.isPrefixOf, unlike]
        · simp [unequal]

theorem isWord_append (h : isWord w = true) (rest : x.all isIdentifierRest = true) :
    isWord (w ++ x) = true := by
  unfold isWord at h ⊢
  cases w with
  | nil => cases h
  | cons c w => simpa [rest] using h

/-- a word that announces no declaration, whatever is added to it -/
def isStem (w : List Char) : Bool :=
  isWord w && (differs w ['f', 'n'] && differs w ['s', 't', 'r', 'u', 'c', 't'])

theorem isName_append (h : isStem w = true) (rest : x.all isIdentifierRest = true) :
    isName (w ++ x) = true := by
  obtain ⟨word, others⟩ := Bool.and_eq_true_iff.1 h
  obtain ⟨function, record⟩ := Bool.and_eq_true_iff.1 others
  have head : isHead (w ++ x) = false :=
    Bool.or_eq_false_iff.2 ⟨decide_eq_false (differs_append function x).2,
      decide_eq_false (differs_append record x).2⟩
  simp [isName, isWord_append word rest, head]

theorem isLocal_append (h : isApart w = true) (rest : x.all isIdentifierRest = true) :
    isLocal (w ++ x) = true := by
  obtain ⟨word, apart⟩ := Bool.and_eq_true_iff.1 h
  have each (r : List Char) (member : r ∈ reservedStems ++ reservedNames ++
      [['f', 'n'], ['s', 't', 'r', 'u', 'c', 't'], ['v', 'a', 'r']]) :=
    differs_append (all_eq_true.1 apart r member) x
  have free : isReserved (w ++ x) = false := by
    refine Bool.or_eq_false_iff.2 ⟨any_eq_false.2 fun r member => ?_, ?_⟩
    · rw [(each r (by simp [member])).1]
      nofun
    · refine Bool.eq_false_iff.2 fun member => ?_
      have member := contains_iff_mem.1 member
      exact (each _ (by simp [member])).2 rfl
  have head : isHead (w ++ x) = false := by
    refine Bool.or_eq_false_iff.2 ⟨decide_eq_false ?_, decide_eq_false ?_⟩
    · exact (each ['f', 'n'] (by simp)).2
    · exact (each ['s', 't', 'r', 'u', 'c', 't'] (by simp)).2
  have variable_ : w ++ x ≠ ['v', 'a', 'r'] := (each ['v', 'a', 'r'] (by simp)).2
  simp [isLocal, isWord_append word rest, head, variable_, free]

end

section
variable {known : String → Prop} {l : List Char}

theorem isLocal_stem (h : isApart l = true) (rest : x.toList.all isIdentifierRest = true) :
    isLocal (String.ofList l ++ x).toList = true := by
  rw [String.toList_append, String.toList_ofList]
  exact isLocal_append h rest

theorem isName_stem (h : isStem l = true) (rest : x.toList.all isIdentifierRest = true) :
    isName (String.ofList l ++ x).toList = true := by
  rw [String.toList_append, String.toList_ofList]
  exact isName_append h rest

theorem digits_rest (k : Nat) : (toString k).toList.all isIdentifierRest = true :=
  all_eq_true.2 fun x member => by simp [isIdentifierRest, isDigit_of_mem member]

theorem ends_numbered (k : Nat) (h : isApart l = true) :
    Ends known (String.ofList l ++ toString k) := ends_word (isLocal_stem h (digits_rest k))

theorem isApart_digit {c : Char} (h : c.isDigit = true) : isApart [c] = true := by
  have other (d : Char) (letter : d.isDigit = false) : ¬ c = d := by
    rintro rfl
    rw [h] at letter
    cases letter
  simp [isApart, isWord, isIdentifierRest, h, reservedStems, reservedNames, differs, other 'v' rfl,
    other 'b' rfl, other 'c' rfl, other 'S' rfl, other 's' rfl, other 'p' rfl, other 'f' rfl]

theorem ends_nat (k : Nat) (rest : x.toList.all isIdentifierRest = true) :
    Ends known (toString k ++ x) := by
  refine ends_word ?_
  rw [String.toList_append]
  cases digits : (toString k).toList with
  | nil => exact absurd digits (toList_toString_ne_nil k)
  | cons c ds =>
    have first : c.isDigit = true := isDigit_of_mem (digits ▸ mem_cons_self)
    have others := digits_rest k
    rw [digits, all_cons, Bool.and_eq_true] at others
    rw [cons_append, ← singleton_append]
    refine isLocal_append (isApart_digit first) ?_
    rw [all_append, others.2, rest]
    rfl

theorem ends_digits (k : Nat) : Ends known (toString k) := by
  have digits : Ends known (toString k ++ "") := ends_nat k rfl
  rwa [String.append_empty] at digits

theorem ends_int (k : Int) (rest : x.toList.all isIdentifierRest = true) :
    Ends known (toString k ++ x) := by
  cases k with
  | ofNat n => exact ends_nat n rest
  | negSucc n =>
    show Ends known ("-" ++ toString (n + 1) ++ x)
    rw [String.append_assoc]
    exact (closes_literal "-" (by decide)).ends (ends_nat (n + 1) rest)

theorem ends_number (k : Int) : Ends known (toString k) := by
  have number : Ends known (toString k ++ "") := ends_int k rfl
  rwa [String.append_empty] at number

/-! ## symbols -/

/-- a variable that is no argument by a name of its own -/
def Var.isClean : Var → Bool
  | .named name => isLocal name.toList
  | _ => true

theorem ends_var {v : Var} (h : v.isClean = true) : Ends known v.text := by
  cases v with
  | position => exact ends_word (by decide)
  | input i => exact ends_numbered (l := ['i', 'n', '_']) i (by decide)
  | copy i => exact ends_numbered (l := ['a']) i (by decide)
  | bound n => exact ends_numbered (l := ['v', '_']) n (by decide)
  | result n => exact ends_numbered (l := ['t', '_']) n (by decide)
  | named name => exact ends_word h

def Symbol.isClean : Symbol → Bool
  | .var v => v.isClean
  | .param _ _ => true

theorem ends_symbol {s : Symbol} (h : s.isClean = true) (params : known "params") :
    Ends known s.text := by
  have slot {a : List Char} (opens : isClosed ["params".toList] a = true) (k : Nat) :
      Ends known (String.ofList a ++ toString k) :=
    (closes_within ["params"] (forall_mem_singleton.2 params) opens).ends (ends_digits k)
  cases s with
  | var v => exact ends_var h
  | param k shape =>
    have plain := slot (a := "params[".toList) (by decide) k
    have whole := slot (a := "i32(params[".toList) (by decide) k
    have truth := slot (a := "(params[".toList) (by decide) k
    rw [String.ofList_toList] at plain whole truth
    cases shape with
    | float => exact plain.literal "].x" (by decide)
    | vec2 => exact plain.literal "].xy" (by decide)
    | vec3 => exact plain.literal "].xyz" (by decide)
    | int => exact whole.literal "].x)" (by decide)
    | bool => exact truth.literal "].x != 0.0)" (by decide)
    | rotation | undefined => exact plain.literal "]" (by decide)

/-! ## expressions -/

/-- a function of the language, the seed's offset, or one of these routines -/
def Callee.isClean (rs : List Routine) : Callee → Bool
  | .unary op => op ≠ .neg
  | .binary op => op ∉ [.add, .sub, .mul, .div, .mod]
  | .convert s => s.isDefined
  | .routine r => rs.contains r
  | _ => true

@[simp]
def Expr.isClean (rs : List Routine) : Expr → Bool
  | .sym s => s.isClean
  | .literal t => isEnding t.toList
  | .neg e | .not e | .group e => e.isClean rs
  | .op _ a b => a.isClean rs && b.isClean rs
  | .call0 f => f.isClean rs
  | .call1 f a => f.isClean rs && a.isClean rs
  | .call2 f a b => f.isClean rs && a.isClean rs && b.isClean rs
  | .call3 f a b c => f.isClean rs && a.isClean rs && b.isClean rs && c.isClean rs
  | .lanes e mask => e.isClean rs && isLocal mask.toList
  | .sample _ _ => false

theorem closes_pair {b : String} (h : isClosed [] (a.toList ++ b.toList) = true) :
    Closes known (a ++ b) :=
  closes_literal _ (String.toList_append ▸ h)

theorem closes_operator (o : Operator) : Closes known (o.text ++ " ") := by
  have nothing : Closes known ("" ++ " ") := closes_pair (by decide)
  cases o with
  | arith op | compare op => cases op with
    | unknown => exact nothing
    | _ => exact closes_pair (by decide)
  | and | or => exact closes_pair (by decide)

theorem Ends.operator (h : Ends known a) (o : Operator) :
    Closes known (a ++ " " ++ o.text ++ " ") := by
  rw [String.append_assoc]
  exact (h.close " " (by decide)).append (closes_operator o)

/-- what the code of these routines may mention -/
structure Provides (known : String → Prop) (rs : List Routine) : Prop where
  params : known "params"
  seed : known "vg_seed3"
  routine : ∀ r ∈ rs, known r.name

variable {rs : List Routine}

theorem closes_callee (provides : Provides known rs) {f : Callee} (h : f.isClean rs = true) :
    Closes known (f.text ++ "(") := by
  have nothing : Closes known ("" ++ "(") := closes_pair (by decide)
  cases f with
  | unary op => cases op with
    | neg => cases h
    | unknown => exact nothing
    | _ => exact closes_pair (by decide)
  | binary op => cases op with
    | min | max | pow => exact closes_pair (by decide)
    | unknown => exact nothing
    | _ => cases h
  | convert s => cases s with
    | undefined => cases h
    | _ => exact closes_pair (by decide)
  | routine r =>
    refine closes_applied (c := '(') (.inl rfl) ?_ (.inl ?_)
    · cases r <;> decide
    · rw [String.ofList_toList]
      exact provides.routine r (contains_iff_mem.1 h)
  | seed => exact closes_applied (c := '(') (.inl rfl) (by decide) (.inl provides.seed)
  | _ => exact closes_pair (by decide)

theorem ends_of_isClean (provides : Provides known rs) (h : e.isClean rs = true) :
    Ends known e.text := by
  induction e with
  | sym s => exact ends_symbol h provides.params
  | literal t => exact ends_literal h
  | neg e ih => exact (closes_literal "-" (by decide)).ends (ih h)
  | not e ih => exact (closes_literal "!" (by decide)).ends (ih h)
  | group e ih =>
    have opened : Closes known "(" := closes_literal _ (by decide)
    exact ((opened.ends (ih h)).close ")" (by decide)).toEnds
  | op o a b iha ihb =>
    obtain ⟨ha, hb⟩ := Bool.and_eq_true_iff.1 h
    exact ((iha ha).operator o).ends (ihb hb)
  | call0 f =>
    have both : f.text ++ "()" = f.text ++ "(" ++ ")" := by
      rw [String.append_assoc]
      rfl
    show Ends known (f.text ++ "()")
    rw [both]
    exact ((closes_callee provides h).append (closes_literal _ (by decide))).toEnds
  | call1 f a iha =>
    obtain ⟨hf, ha⟩ := Bool.and_eq_true_iff.1 h
    exact (((closes_callee provides hf).ends (iha ha)).close ")" (by decide)).toEnds
  | call2 f a b iha ihb =>
    obtain ⟨h, hb⟩ := Bool.and_eq_true_iff.1 h
    obtain ⟨hf, ha⟩ := Bool.and_eq_true_iff.1 h
    have first := ((closes_callee provides hf).ends (iha ha)).close ", " (by decide)
    exact ((first.ends (ihb hb)).close ")" (by decide)).toEnds
  | call3 f a b d iha ihb ihd =>
    obtain ⟨h, hd⟩ := Bool.and_eq_true_iff.1 h
    obtain ⟨h, hb⟩ := Bool.and_eq_true_iff.1 h
    obtain ⟨hf, ha⟩ := Bool.and_eq_true_iff.1 h
    have first := ((closes_callee provides hf).ends (iha ha)).close ", " (by decide)
    have second := (first.ends (ihb hb)).close ", " (by decide)
    exact ((second.ends (ihd hd)).close ")" (by decide)).toEnds
  | lanes e mask ih =>
    obtain ⟨he, word⟩ := Bool.and_eq_true_iff.1 h
    exact ((ih he).close "." (by decide)).ends (ends_word word)
  | sample buffer index => cases h

/-! ## lines -/

theorem ends_typeName (s : Shape) : Ends known s.typeName := by
  cases s with
  | undefined =>
    have nothing : Ends known "void" := ends_literal (by decide)
    exact nothing
  | _ => exact ends_literal (by decide)

/-- a line over locals and slots that calls these routines only -/
def Line.isClean (rs : List Routine) : Line → Bool
  | .bind v _ e | .letVar v e | .start v e | .assign v e => v.isClean && e.isClean rs
  | .declare v _ | .loop v _ _ _ => v.isClean
  | .store output e => isLocal output.toList && e.isClean rs
  | .test e | .otherwise e => e.isClean rs
  | .close => true
  | .call _ _ _ | .verbatim _ => false

theorem closes_assignment {target : String} (named : Ends known target)
    (value : Ends known e.text) : Closes known (target ++ " = " ++ e.text ++ ";") :=
  ((named.close " = " (by decide)).ends value).close _ (by decide)

theorem closes_bind {v : Var} (clean : v.isClean = true) (s : Shape) (h : Ends known e.text) :
    Closes known (Line.bind v s e).text :=
  closes_assignment ((((closes_literal "let " (by decide)).ends (ends_var clean)).close ": "
    (by decide)).ends (ends_typeName s)) h

theorem closes_of_isClean (provides : Provides known rs) {line : Line}
    (h : line.isClean rs = true) : Closes known line.text := by
  have assigned {target : String} {e : Expr} (named : Ends known target)
      (clean : e.isClean rs = true) := closes_assignment named (ends_of_isClean provides clean)
  cases line with
  | bind v s e =>
    obtain ⟨hv, he⟩ := Bool.and_eq_true_iff.1 h
    exact closes_bind hv s (ends_of_isClean provides he)
  | letVar v e =>
    obtain ⟨hv, he⟩ := Bool.and_eq_true_iff.1 h
    exact assigned ((closes_literal "let " (by decide)).ends (ends_var hv)) he
  | declare v s =>
    have type : Ends known s.typeName := ends_typeName s
    exact ((((closes_literal "var " (by decide)).ends (ends_var h)).close ": " (by decide)).ends
      type).close _ (by decide)
  | start v e =>
    obtain ⟨hv, he⟩ := Bool.and_eq_true_iff.1 h
    exact assigned ((closes_literal "var " (by decide)).ends (ends_var hv)) he
  | assign v e =>
    obtain ⟨hv, he⟩ := Bool.and_eq_true_iff.1 h
    exact assigned (ends_var hv) he
  | store output e =>
    obtain ⟨ho, he⟩ := Bool.and_eq_true_iff.1 h
    exact assigned ((closes_literal "*" (by decide)).ends (ends_word ho)) he
  | loop v first relation last =>
    have var : Ends known v.text := ends_var h
    have named := ((closes_literal "for (var " (by decide)).ends var).close " = " (by decide)
    have started := (named.ends (ends_number first)).close "; " (by decide)
    have related := ((started.ends var).operator (.compare relation)).ends (ends_number last)
    have bounded := ((related.close "; " (by decide)).ends var).close " = " (by decide)
    exact (bounded.ends var).close _ (by decide)
  | test e =>
    have opened := (closes_literal "if (" (by decide)).ends (ends_of_isClean provides h)
    exact opened.close _ (by decide)
  | otherwise e =>
    have opened := (closes_literal "\x7d else if (" (by decide)).ends (ends_of_isClean provides h)
    exact opened.close _ (by decide)
  | close => exact closes_literal _ (by decide)
  | call | verbatim => cases h

theorem closes_indented {l : Indented} (h : Closes known l.line.text) : Closes known l.text := by
  have tabs (k : Nat) : Closes known (String.ofList (List.replicate k '\t')) := by
    induction k with
    | zero => exact closes_literal _ (by decide)
    | succ k ih =>
      rw [replicate_succ, ← singleton_append, String.ofList_append]
      exact (closes_literal _ (by decide)).append ih
  exact (tabs l.depth).append h

end

end Terrain.Kernel

namespace Terrain.Compile

open Kernel List

variable {e : Expr}

/-! ## terms -/

section
variable {rs : List Routine} {es : List Expr}

theorem congruent_clean (rs : List Routine) :
    Congruent (fun e _ => e.isClean rs = true) (fun f => f.isClean rs = true)
      fun m => isLocal m.toList = true := by
  constructor
  case literal =>
    show ∀ t ∈ ["", "0", "1", "0.0", "1.0"], isEnding t.toList = true
    decide
  case mask => decide
  case builtin =>
    intro f known
    cases f <;> first | rfl | cases known | exact known
  all_goals simp +contextual

theorem isLocal_mask {mask : String} {s σ : Shape}
    (lanes : Shape.ofLanes? mask.utf8ByteSize = some σ)
    (named : swizzleFault s mask.toList = none) : isLocal mask.toList = true := by
  have letters : ∀ x ∈ mask.toList, x ∈ ['x', 'y', 'z', 'w'] := by
    intro x member
    have lane := all_eq_true.1 (lanes_of_swizzleFault named).1 x member
    unfold Ty.lane? at lane
    split at lane <;> simp_all
  have apart : ∀ x ∈ ['x', 'y', 'z', 'w'], isApart [x] = true ∧ isIdentifierRest x = true := by
    have each : ['x', 'y', 'z', 'w'].all (fun x => isApart [x] && isIdentifierRest x) =
        true := by decide
    exact fun x member => Bool.and_eq_true_iff.1 (all_eq_true.1 each x member)
  cases chars : mask.toList with
  | nil =>
    obtain rfl : mask = "" := String.toList_inj.1 chars
    cases lanes
  | cons x rest =>
    rw [chars] at letters
    obtain ⟨first, others⟩ := forall_mem_cons.1 letters
    exact isLocal_append (apart x first).1 (all_eq_true.2 fun y member =>
      (apart y (others y member)).2)

theorem isClean_accepted {n : Node} {shapes : List Shape} (operands : ∀ e ∈ es, e.isClean rs = true)
    (routines : ∀ r ∈ termRoutines n, r ∈ rs) (defined : n.shape.isDefined = true)
    (accepts : n.op.Accepts shapes n.shape) : (term n es).isClean rs = true := by
  refine congruent_term (congruent_clean rs) (forall₂_same.2 operands)
    (fun r own => contains_iff_mem.2 (routines r own)) defined (fun m op => ?_) fun t op => ?_
  all_goals
    rw [op] at accepts
    generalize n.shape = σ at accepts defined
  · cases accepts with
    | swizzle wide lanes named => exact isLocal_mask lanes named
  · cases accepts with
    | same => exact defined
    | cast source target differs => exact defined

theorem isClean_metric (h : e.isClean rs = true) (metric : Metric) {s : Shape}
    (float : s.isFloatLike = true) : (Expr.metric metric e s).isClean rs = true := by
  refine (congruent_clean rs).metric (b := e) h metric ?_
  rcases eq_of_isFloatLike float with rfl | rfl | rfl <;> rfl

/-! ## nested functions -/

/-- are the lines of a nested function over operands of these shapes clean? -/
def cleanNested (arity : Nat) (r : Routine) (t : Template) : Bool :=
  (Context.nestedLines arity t).all (·.line.isClean [r])

theorem cleanNested_fractal : ∀ kind ∈ [NoiseKind.value, .perlin], ∀ point ∈ [Shape.vec2, .vec3],
    ∀ octaves ∈ List.range 17,
      cleanNested 3 (noiseRoutine kind point) (fractalTemplate kind point octaves) = true := by
  decide

theorem cleanNested_cellular : ∀ metric ∈ [Metric.euclidean, .manhattan, .chebyshev],
    ∀ feature ∈ [CellFeature.nearest, .second, .gap], ∀ point ∈ [Shape.vec2, .vec3],
      cleanNested 1 (scatterRoutine point) (cellularTemplate metric feature point) = true := by
  decide

theorem Samples.clean {r : Routine} {shapes : List Shape} {t : Template} (h : Samples r shapes t) :
    cleanNested shapes.length r t = true := by
  cases h with
  | fractal known vector few => exact cleanNested_fractal _ known _ vector _ few
  | cellular known listed vector => exact cleanNested_cellular _ known _ listed _ vector

end

end Terrain.Compile
