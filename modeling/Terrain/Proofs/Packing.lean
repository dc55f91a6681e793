import Terrain.Proofs.Tables

/-!
# Packing parameters

A parameter buffer has sixteen bytes for each slot, and offsets into it are signed 64-bit words.  A
compiled program can be packed under the values that it was compiled with, and under all values that
differ from them in no shape.

* `Program.Packable`          slots are places, and bound values have the shapes of their
                              parameters;
* `Program.Packable.data`     then there is a buffer;
* `Program.Packable.bind`     a value of the right shape may be bound;
* `compile_packable`          compiled programs are packable.
-/

namespace Terrain

open List

namespace Program

/-- the parameters of a program fit into a buffer, and what is bound to their names fits them -/
structure Packable (p : Program) (values : Bindings) : Prop where
  slot : ∀ (k : Nat) (q : Parameter), p.parameters[k]? = some q → q.slot = k
  size : p.parameters.length ≤ 2 ^ 59
  names : ∀ q ∈ p.parameters, ∀ q' ∈ p.parameters, q.injected = true → q'.injected = true →
    q.name = q'.name → q = q'
  fits : ∀ q ∈ p.parameters, q.injected = true → ∀ v, values.lookup q.name = some v →
    v.shape = q.shape

/-! ## buffers -/

end Program

def Value.bytes (v : Value) : List UInt8 := v.lanes.toList.flatMap fun x => littleEndian x.bits

namespace Program

/-- what is bound to a parameter has its shape -/
def Fits (values : Bindings) (q : Parameter) : Prop :=
  q.injected = true → ∀ v, values.lookup q.name = some v → v.shape = q.shape

/-- the value of a parameter that fits -/
def boundTo (values : Bindings) (q : Parameter) : Value :=
  if q.injected then (values.lookup q.name).getD q.value else q.value

theorem overwrite_append {before old new after : List UInt8} (same : old.length = new.length) :
    overwrite (before ++ (old ++ after)) before.length new = before ++ (new ++ after) := by
  unfold overwrite
  rw [take_left, ← same, ← append_assoc before old, ← length_append, drop_left, append_assoc]

/-- lanes are written one after the other, from the place where the buffer is divided -/
theorem writeLanes_eq {slot lane : Nat} {xs : List Number.Single} {before old after : List UInt8}
    (start : before.length = 16 * slot + 4 * lane) (room : old.length = 4 * xs.length)
    (small : (before ++ (old ++ after)).length ≤ 2 ^ 63) :
    writeLanes (before ++ (old ++ after)) slot lane xs =
      .ok (before ++ (xs.flatMap (fun x => littleEndian x.bits) ++ after)) := by
  induction xs generalizing lane before old with
  | nil =>
    obtain rfl := eq_nil_of_length_eq_zero room
    rfl
  | cons x xs ih =>
    rw [length_cons] at room
    have word : (old.take 4).length = (littleEndian x.bits).length := by
      rw [length_take, room]
      exact min_eq_left (by omega)
    have length : (before ++ (old ++ after)).length =
        before.length + (old.length + after.length) := by
      simp only [length_append]
    -- the offset is small enough to be itself as a signed word
    have offset : ((16 * slot + 4 * lane : Int)).bmod (2 ^ 64) = (before.length : Int) := by
      rw [Int.bmod_eq_of_le] <;> omega
    have divided : old ++ after = old.take 4 ++ (old.drop 4 ++ after) := by
      rw [← append_assoc, take_append_drop]
    unfold writeLanes
    dsimp only
    rw [offset, if_neg (by omega), if_neg (by omega), Int.toNat_natCast, divided,
      overwrite_append word, ← append_assoc, ih, flatMap_cons, append_assoc, append_assoc]
    · rw [length_append, start]
      show _ + 4 = _
      omega
    · rw [length_drop, room]
      omega
    · simp only [length_append, length_drop]
      show before.length + 4 + _ ≤ _
      omega

theorem boundValue_eq {values : Bindings} {q : Parameter} (fits : Fits values q) :
    boundValue values q = .ok (boundTo values q) := by
  unfold boundValue boundTo
  split
  case isTrue injected =>
    split
    case h_1 v bound =>
      rw [bound]
      exact if_pos (fits injected v bound)
    case h_2 none =>
      rw [none]
      rfl
  case isFalse => rfl

/-- a buffer with room for parameters in consecutive slots gets their values, unless one of them is
bound to a value of another shape -/
theorem writeParameters_cases {values : Bindings} {qs : List Parameter} {k : Nat}
    {before old after : List UInt8}
    (slots : ∀ (j : Nat) (q : Parameter), qs[j]? = some q → q.slot = (k + j : Nat))
    (start : before.length = 16 * k) (room : old.length = 16 * qs.length)
    (small : (before ++ (old ++ after)).length ≤ 2 ^ 63) :
    ((∀ q ∈ qs, Fits values q) ∧
      writeParameters values qs (before ++ (old ++ after)) =
        .ok (before ++ (qs.flatMap (fun q => (boundTo values q).bytes) ++ after))) ∨
    ∃ q ∈ qs, ∃ v, q.injected = true ∧ values.lookup q.name = some v ∧ v.shape ≠ q.shape ∧
      writeParameters values qs (before ++ (old ++ after)) =
        .error (.refused (.configuration q.name (.boundShape v.shape q.shape))) := by
  induction qs generalizing k before old with
  | nil =>
    obtain rfl := eq_nil_of_length_eq_zero room
    exact .inl ⟨nofun, rfl⟩
  | cons q qs ih =>
    by_cases fits : Fits values q
    · rw [length_cons] at room
      have block : (old.take 16).length = 16 := by
        rw [length_take, room]
        omega
      have divided : old ++ after = old.take 16 ++ (old.drop 16 ++ after) := by
        rw [← append_assoc, take_append_drop]
      have written : writeLanes (before ++ (old ++ after)) q.slot 0
          (boundTo values q).lanes.toList =
          .ok (before ++ (boundTo values q).bytes ++ (old.drop 16 ++ after)) := by
        rw [divided] at small
        rw [slots 0 q rfl, divided, append_assoc]
        exact writeLanes_eq start block small
      unfold writeParameters
      rw [boundValue_eq fits]
      dsimp only
      rw [written]
      dsimp only
      have start' : (before ++ (boundTo values q).bytes).length = 16 * (k + 1) := by
        rw [length_append, start]
        rfl
      have room' : (old.drop 16).length = 16 * qs.length := by
        rw [length_drop, room]
        omega
      have small' : (before ++ (boundTo values q).bytes ++
          (old.drop 16 ++ after)).length ≤ 2 ^ 63 := by
        simp only [length_append] at small ⊢
        rw [length_drop]
        show _ + 16 + _ ≤ _
        omega
      rcases ih (fun j q' listed => by rw [slots (j + 1) q' listed]; omega) start' room' small' with
        ⟨rest, eq⟩ | ⟨q', member, refused⟩
      · refine .inl ⟨forall_mem_cons.2 ⟨fits, rest⟩, ?_⟩
        rw [eq, flatMap_cons, append_assoc, append_assoc]
      · exact .inr ⟨q', .tail _ member, refused⟩
    · unfold Fits at fits
      push Not at fits
      obtain ⟨injected, v, bound, other⟩ := fits
      refine .inr ⟨q, .head _, v, injected, bound, other, ?_⟩
      unfold writeParameters boundValue
      rw [if_pos injected, bound]
      dsimp only
      rw [if_neg other]

/-- a program whose slots are the places of its parameters -/
structure Placed (p : Program) : Prop where
  slot : ∀ (k : Nat) (q : Parameter), p.parameters[k]? = some q → q.slot = k
  size : p.parameters.length ≤ 2 ^ 59

/-- the values one after the other, and never nothing -/
def packed (p : Program) (values : Bindings) : List UInt8 :=
  p.parameters.flatMap (fun q => (boundTo values q).bytes) ++
    replicate (16 * (max 1 p.parameters.length - p.parameters.length)) 0

theorem Placed.data_cases {p : Program} (h : p.Placed) (values : Bindings) :
    ((∀ q ∈ p.parameters, Fits values q) ∧ p.parameterData values = .ok (p.packed values)) ∨
    ∃ q ∈ p.parameters, ∃ v, q.injected = true ∧ values.lookup q.name = some v ∧ v.shape ≠ q.shape ∧
      p.parameterData values =
        .error (.refused (.configuration q.name (.boundShape v.shape q.shape))) := by
  have size := h.size
  have divided : replicate (16 * max 1 p.parameters.length) (0 : UInt8) =
      [] ++ (replicate (16 * p.parameters.length) 0 ++
        replicate (16 * (max 1 p.parameters.length - p.parameters.length)) 0) := by
    rw [nil_append, replicate_append_replicate, ← Nat.mul_add,
      Nat.add_sub_cancel' (le_max_right _ _)]
  unfold parameterData
  rw [divided]
  refine writeParameters_cases (k := 0) (fun j q listed => ?_) rfl (length_replicate ..) ?_
  · rw [Nat.zero_add]
    exact h.slot j q listed
  · rw [← divided, length_replicate]
    omega

theorem Packable.placed {p : Program} {values : Bindings} (h : p.Packable values) : p.Placed :=
  ⟨h.slot, h.size⟩

theorem Packable.data {p : Program} {values : Bindings} (h : p.Packable values) :
    p.parameterData values = .ok (p.packed values) := by
  rcases h.placed.data_cases values with ⟨-, ok⟩ | ⟨q, member, v, injected, bound, other, -⟩
  · exact ok
  · exact absurd (h.fits q member injected v bound) other

/-! ## injected parameters -/

theorem mem_injected {p : Program} {name : String} {q : Parameter} (h : (name, q) ∈ p.injected) :
    q ∈ p.parameters ∧ q.injected = true ∧ q.name = name := by
  have fold (qs : List Parameter) (found : List (String × Parameter))
      (old : ∀ x ∈ found, x.2 ∈ p.parameters ∧ x.2.injected = true ∧ x.2.name = x.1)
      (new : ∀ q ∈ qs, q ∈ p.parameters ∧ q.injected = true) :
      ∀ x ∈ qs.foldl (fun found q => found.filter (·.1 != q.name) ++ [(q.name, q)]) found,
        x.2 ∈ p.parameters ∧ x.2.injected = true ∧ x.2.name = x.1 := by
    induction qs generalizing found with
    | nil => exact old
    | cons q qs ih =>
      obtain ⟨own, others⟩ := forall_mem_cons.1 new
      refine ih _ (forall_mem_append.2 ⟨?_, forall_mem_singleton.2 ⟨own.1, own.2, rfl⟩⟩) others
      exact fun x member => old x (mem_filter.1 member).1
  exact fold _ [] nofun (fun q member => mem_filter.1 member)
    (name, q) h

theorem Packable.bind {p : Program} {values values' : Bindings} (h : p.Packable values)
    {name : String} {v : Value} {q : Parameter} (known : p.injected.lookup name = some q)
    (shape : q.shape = v.shape) (bound : values'.lookup name = some v)
    (others : ∀ x, x ≠ name → values'.lookup x = values.lookup x) : p.Packable values' := by
  refine ⟨h.slot, h.size, h.names, fun q' member injected w found => ?_⟩
  obtain ⟨member', injected', named⟩ := mem_injected (mem_of_lookup known)
  by_cases same : q'.name = name
  · obtain rfl := h.names q' member q member' injected injected' (same.trans named.symm)
    rw [same, bound] at found
    cases found
    exact shape.symm
  · rw [others _ same] at found
    exact h.fits q' member injected w found

end Program

/-! ## compiled programs -/

namespace Compile

section
variable {g : Graph} {S : NodeId → Prop} {o : Options} {c : Context}

section
variable (h : Slotted g S o c)
include h

theorem Slotted.owns_inj {n : Node} {k k' : Nat} (owns : Owns c n k) (owns' : Owns c n k') :
    k = k' := by
  unfold Owns at owns owns'
  split at owns
  case h_1 v op =>
    rw [op] at owns'
    exact congrArg Prod.snd (inj_on_of_nodup_map h.nodes owns owns' rfl)
  case h_2 name shape fallback op =>
    rw [op] at owns'
    exact congrArg Prod.snd (inj_on_of_nodup_map h.names owns owns' rfl)
  case h_3 => exact owns.elim

theorem Slotted.length_le : c.parameters.length ≤ g.size := by
  choose n found _ owns using fun k : Fin c.parameters.length => h.owner k k.2
  have injective : Function.Injective fun k => (n k).id := by
    intro k k' same
    have node : n k = n k' :=
      Option.some.inj ((found k).symm.trans ((congrArg g.get? same).trans (found k')))
    exact Fin.ext (h.owns_inj (owns k) (node ▸ owns k'))
  have le := length_le_size ((nodup_finRange _).map injective) fun x member => by
    obtain ⟨k, -, rfl⟩ := mem_map.1 member
    exact ⟨n k, found k⟩
  rwa [length_map, length_finRange] at le

/-- a slot is the place of its parameter, and a name has one slot, which holds what is
bound to it -/
theorem Slotted.place {k : Nat} {q : Parameter} (listed : c.parameters[k]? = some q) :
    q.slot = k ∧ (q.injected = true → (q.name, k) ∈ c.injectedSlots ∧
      ∀ v, o.bindings.lookup q.name = some v → v.shape = q.shape) := by
  obtain ⟨n, found, -, owns⟩ := h.owner k (List.getElem?_eq_some_iff.1 listed).1
  rcases h.owned found owns with ⟨v, -, -, here⟩ | ⟨name, -, -, -, -, member, -⟩
  · cases listed.symm.trans here
    exact ⟨rfl, nofun⟩
  · obtain ⟨-, -, fallback, v, -, -, bound, here⟩ := h.injected _ member
    cases listed.symm.trans here
    refine ⟨rfl, fun _ => ⟨member, fun w found => ?_⟩⟩
    rw [found] at bound
    exact congrArg Value.shape (Option.some.inj bound)

theorem Slotted.packable (small : g.size ≤ 2 ^ 59) : c.toProgram.Packable o.bindings where
  slot k q listed := (h.place listed).1
  size := h.length_le.trans small
  names q member q' member' injected injected' same := by
    obtain ⟨k, listed⟩ := getElem?_of_mem member
    obtain ⟨k', listed'⟩ := getElem?_of_mem member'
    have slot := ((h.place listed).2 injected).1
    have slot' := ((h.place listed').2 injected').1
    obtain rfl : k = k' := congrArg Prod.snd (inj_on_of_nodup_map h.names slot slot' same)
    exact Option.some.inj (listed.symm.trans listed')
  fits q member injected := by
    obtain ⟨k, listed⟩ := getElem?_of_mem member
    exact ((h.place listed).2 injected).2

end

end

end Compile

theorem compile_packable {g : Graph} (built : g.Built) (small : g.size ≤ 2 ^ 59) {roots : List Root}
    {o : Compile.Options} {p : Program} (h : g.compile roots o = .ok p) :
    p.Packable o.bindings := by
  obtain ⟨c, parsed, rfl⟩ := Compile.compile_ok_iff.1 h
  exact (Compile.parsed_registered built.wellFormed parsed).slotted.packable small

end Terrain
