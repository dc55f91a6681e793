import Terrain.Manifest.Basic
import Terrain.Proofs.Artifacts
import Terrain.Proofs.Documents

/-!
# Manifests that load

A manifest is read from a text that the schema admits, or it is the default one.  So its workgroup
is small, and its parameters are numbers, vectors and flags that were written down.  Their values
have no NaN but the one that is sent for every NaN, and arrive elsewhere as they are.

* `normal_toValue`        the value of a setting that was read arrives as it is;
* `field_admits`          a field of a record is what the rule of the field admits;
* `Loaded.workgroup`      the workgroup of a manifest that loads;
* `Loaded.values`         the values of its parameters.
-/

namespace Terrain

open List

open Number (Single Double Datum Format)

variable {s table : Setting} {m : Manifest}

/-! ## numbers without a payload -/

theorem unpack_signBit_add (negative : Bool) {magnitude : Nat} (small : magnitude ≤ 255 * 2 ^ 23) :
    Format.binary32.unpack (Format.binary32.signBit negative + magnitude) ≠ .nan := by
  intro nan
  have sign : Format.binary32.signBit negative = 0 ∨ Format.binary32.signBit negative = 2 ^ 31 := by
    cases negative
    · exact .inl rfl
    · exact .inr rfl
  unfold Format.unpack at nan
  dsimp only at nan
  split at nan
  · next top =>
    split at nan
    · cases nan
    · next fraction =>
      have top : (Format.binary32.signBit negative + magnitude) / 2 ^ 23 % 2 ^ 8 = 255 := top
      have fraction : ¬ (Format.binary32.signBit negative + magnitude) % 2 ^ 23 = 0 := fraction
      rcases sign with sign | sign <;> rw [sign] at top fraction <;> omega
  · split at nan <;> cases nan

theorem ofRatio_eq (f : Format) (negative : Bool) (n d : Nat) :
    ∃ m ≤ f.topField * 2 ^ f.fractionBits, f.ofRatio negative n d = f.signBit negative + m := by
  unfold Format.ofRatio
  split
  · exact ⟨0, Nat.zero_le _, rfl⟩
  · dsimp only
    split
    · exact ⟨_, le_rfl, rfl⟩
    · next less => exact ⟨_, Nat.le_of_not_le less, rfl⟩

theorem normal_ofBits {bits : Nat} (fits : bits < 2 ^ 32)
    (number : Format.binary32.unpack bits ≠ .nan) :
    (Single.mk bits.toUInt32).normal = Single.mk bits.toUInt32 := by
  have same : bits.toUInt32.toNat = bits := Nat.mod_eq_of_lt fits
  unfold Single.normal
  rw [if_neg]
  unfold Single.isNaN Single.datum
  dsimp only
  rw [same]
  simpa using number

theorem normal_ofRatio (negative : Bool) (n d : Nat) :
    (Single.mk (Format.binary32.ofRatio negative n d).toUInt32).normal =
      Single.mk (Format.binary32.ofRatio negative n d).toUInt32 := by
  obtain ⟨m, small, eq⟩ := ofRatio_eq Format.binary32 negative n d
  have small : m ≤ 255 * 2 ^ 23 := small
  refine normal_ofBits ?_ ?_
  · rw [eq]
    exact Format.signBit_add_lt (f := .binary32) negative (small.trans_lt (by decide))
  · rw [eq]
    exact unpack_signBit_add negative small

theorem normal_ofInt (n : Int) : (Single.ofInt n).normal = Single.ofInt n := normal_ofRatio _ _ _

theorem normal_ofDouble (x : Double) : (Single.ofDouble x).normal = Single.ofDouble x := by
  unfold Single.ofDouble
  cases x.datum with
  | finite negative m s => exact normal_ofRatio _ _ _
  | infinite negative => cases negative <;> decide
  | nan => decide

/-! ## values of settings -/

/-- a setting that was written down and not given as a literal -/
def Setting.isWritten : Setting → Bool
  | .given _ => false
  | _ => true

theorem normal_ofList {xs : List Single} (h : ∀ x ∈ xs, x.normal = x) :
    (Lanes.ofList xs).normal = Lanes.ofList xs := by
  have zero : Single.zero.normal = .zero := by decide
  have lane (i : Nat) : (xs.getD i .zero).normal = xs.getD i .zero := by
    rw [getD_eq_getElem?_getD]
    cases found : xs[i]? with
    | none => exact zero
    | some x => exact h x (mem_of_getElem? found)
  unfold Lanes.ofList Lanes.normal
  rw [lane, lane, lane, lane]

theorem normal_doubles {xs : List Double} {v : Value} (h : (Literal.doubles xs).toValue = .ok v) :
    v.normal = v := by
  have each : ∀ ys : List Double, ∀ x ∈ ys.map Single.ofDouble, x.normal = x := by
    intro ys x member
    obtain ⟨y, -, rfl⟩ := mem_map.1 member
    exact normal_ofDouble y
  have made : ∃ shape, v = ⟨shape, .ofList (xs.map .ofDouble)⟩ := by
    unfold Literal.toValue at h
    rcases xs with _ | ⟨x, _ | ⟨y, _ | ⟨z, _ | ⟨w, _ | ⟨u, rest⟩⟩⟩⟩⟩ <;> cases h <;> exact ⟨_, rfl⟩
  obtain ⟨shape, rfl⟩ := made
  exact congrArg (Value.mk shape) (normal_ofList (each xs))

theorem Setting.normal_toValue {v : Value} (written : s.isWritten = true)
    (h : s.toValue = .ok v) : v.normal = v := by
  unfold toValue at h
  split at h
  case h_1 n =>
    cases h
    exact congrArg (Value.mk .float) (normal_ofList (forall_mem_singleton.2 (normal_ofInt n)))
  case h_2 x =>
    cases h
    exact congrArg (Value.mk .float) (normal_ofList (forall_mem_singleton.2 (normal_ofDouble x)))
  case h_3 b =>
    cases h
    cases b <;> decide
  case h_4 items =>
    cases doubles : items.mapM toDouble with
    | error e =>
      rw [doubles] at h
      cases h
    | ok xs =>
      rw [doubles] at h
      exact normal_doubles h
  case h_5 l => cases written
  case h_6 => cases h

/-! ## what the schema admits -/

namespace Manifest

open Rule

theorem field_admits {fields : List (String × Rule)} {t : Setting}
    (h : (record fields).admits t = true) (name : String) :
    field t name = .null ∨ admitsField fields name (field t name) = true := by
  unfold field
  split
  · next entries =>
    cases found : entries.find? fun p => fieldName p.1 == name with
    | none => exact .inl rfl
    | some p =>
      refine .inr ?_
      have admitted : entries.all (fun p => admitsField fields (fieldName p.1) p.2) = true := by
        rw [admits] at h
        exact h
      have this := all_eq_true.1 admitted p (mem_of_find?_eq_some found)
      have named : fieldName p.1 = name := by simpa using find?_some found
      rw [named] at this
      exact this
  · exact .inl rfl

theorem ofTable_ok {folder : String} (h : ofTable folder table = .ok m) :
    m.workgroup = wholeField (field table "volume") "workgroup" ∧
      m.parameters = entriesField table "parameters" := by
  unfold ofTable at h
  iterate 11 obtain ⟨_, -, h⟩ := bind_ok h
  cases h
  exact ⟨rfl, rfl⟩

theorem admits_whole {p : Int → Bool} (h : (whole p).admits s = true) :
    ∃ n, s = .integer n ∧ p n = true := by
  cases s with
  | integer n =>
    rw [admits] at h
    exact ⟨n, rfl, h⟩
  | _ => simp [admits] at h

theorem admits_given (l : Literal) : ∀ rule : Rule, rule.admits (.given l) = false
  | .either a b => by
    rw [admits, admits_given l a, admits_given l b]
    rfl
  | .text _ | .whole _ | .number _ | .boolean | .listOf _ | .vector _ _ | .record _
  | .table _ _ => by
    simp [admits]

theorem isWritten_of_admits {rule : Rule} (h : rule.admits s = true) : s.isWritten = true := by
  cases s with
  | given l =>
    rw [admits_given] at h
    cases h
  | _ => rfl

theorem workgroup_admits (h : schema.admits table = true) :
    0 ≤ wholeField (field table "volume") "workgroup" ∧
      wholeField (field table "volume") "workgroup" ≤ 1024 := by
  unfold wholeField
  rcases field_admits h "volume" with none | volume
  · rw [none]
    decide
  · simp only [admitsField, String.reduceBEq, Bool.false_eq_true, if_false, if_true] at volume
    rcases field_admits volume "workgroup" with none | workgroup
    · rw [none]
      decide
    · simp only [admitsField, String.reduceBEq, Bool.false_eq_true, if_false, if_true] at workgroup
      obtain ⟨n, integer, range⟩ := admits_whole workgroup
      rw [integer]
      simp only [Bool.and_eq_true, decide_eq_true_eq] at range
      exact ⟨show 0 ≤ n by omega, range.2⟩

theorem parameters_admits (h : schema.admits table = true) :
    ∀ p ∈ entriesField table "parameters", p.2.isWritten = true := by
  unfold entriesField
  rcases field_admits h "parameters" with none | parameters
  · rw [none]
    exact nofun
  · simp only [admitsField, String.reduceBEq, Bool.false_eq_true, if_false, if_true] at parameters
    split
    · next entries eq =>
      rw [eq, admits] at parameters
      intro p member
      obtain ⟨q, there, rfl⟩ := mem_map.1 member
      have admitted := all_eq_true.1 parameters q there
      exact isWritten_of_admits (Bool.and_eq_true_iff.1 admitted).2
    · exact nofun

/-- a manifest that a folder has: one that is read, or the default one -/
def Loaded (m : Manifest) : Prop :=
  ∃ folder, m = byDefault folder ∨ ∃ text, parse folder text = .ok m

theorem parse_ok {folder text : String} (h : parse folder text = .ok m) :
    ∃ table m', schema.admits table = true ∧ ofTable folder table = .ok m' ∧
      m = m'.withDefaults := by
  unfold parse at h
  split at h
  · cases h
  · next table _ =>
    split at h
    · next admitted =>
      cases made : ofTable folder table with
      | error e =>
        rw [made] at h
        cases h
      | ok m' =>
        rw [made] at h
        cases h
        exact ⟨table, m', admitted, made, rfl⟩
    · cases h

theorem Loaded.workgroup {m : Manifest} (h : m.Loaded) : IsWord m.workgroup := by
  obtain ⟨folder, rfl | ⟨text, read⟩⟩ := h
  · show IsWord Compile.Options.defaultWorkgroup
    decide
  · obtain ⟨table, m', admitted, made, rfl⟩ := parse_ok read
    obtain ⟨low, high⟩ := workgroup_admits admitted
    rw [← (ofTable_ok made).1] at low high
    unfold withDefaults IsWord
    dsimp only
    split
    · decide
    · omega

theorem Loaded.written (h : m.Loaded) : ∀ p ∈ m.parameters, p.2.isWritten = true := by
  obtain ⟨folder, rfl | ⟨text, read⟩⟩ := h
  · exact nofun
  · obtain ⟨table, m', admitted, made, rfl⟩ := parse_ok read
    show ∀ p ∈ m'.parameters, _
    rw [(ofTable_ok made).2]
    exact parameters_admits admitted

theorem valuesOf_ok {parameters : List (String × Setting)} {values : Bindings}
    (h : valuesOf parameters = .ok values) : values.length = parameters.length ∧
      ∀ q ∈ values, ∃ p ∈ parameters, q.1 = p.1 ∧ p.2.toValue = .ok q.2 := by
  induction parameters generalizing values with
  | nil =>
    cases h
    exact ⟨rfl, nofun⟩
  | cons p rest ih =>
    unfold valuesOf at h
    obtain ⟨q, qs, first, others, rfl⟩ := mapM_cons_ok.1 h
    obtain ⟨length, each⟩ := ih others
    refine ⟨congrArg (· + 1) length, forall_mem_cons.2 ⟨⟨p, .head _, ?_⟩, ?_⟩⟩
    · dsimp only at first
      split at first
      · next v made =>
        cases first
        exact ⟨rfl, made⟩
      · cases first
    · intro q member
      obtain ⟨p', there, same⟩ := each q member
      exact ⟨p', .tail _ there, same⟩

theorem Loaded.values (h : m.Loaded) {values : Bindings} (read : m.values = .ok values) :
    ∀ q ∈ values, q.2.normal = q.2 := by
  intro q member
  obtain ⟨p, there, -, made⟩ := (valuesOf_ok read).2 q member
  exact Setting.normal_toValue (h.written p there) made

end Manifest

end Terrain
