/-!
# Rows by key

Tables are lists of rows, and a key stands for the first row that has it.  What is found is found
again in another order, under other keys and among other rows, as long as no key is there twice.
-/

namespace Terrain

open List

section
variable {κ α : Type} [BEq κ] [LawfulBEq κ] {rows : List (κ × α)} {k key : κ} {a b : α}

theorem mem_of_lookup (h : rows.lookup k = some a) : (k, a) ∈ rows := by
  obtain ⟨before, after, rfl, -⟩ := lookup_eq_some_iff.1 h
  simp

theorem isSome_lookup : (rows.lookup k).isSome = true ↔ k ∈ rows.map Prod.fst := by
  constructor
  · intro known
    obtain ⟨a, found⟩ := Option.isSome_iff_exists.1 known
    exact mem_map.2 ⟨(k, a), mem_of_lookup found, rfl⟩
  · intro member
    obtain ⟨row, listed, rfl⟩ := mem_map.1 member
    refine Option.isSome_iff_ne_none.2 fun unknown => ?_
    exact absurd rfl (bne_iff_ne.1 (lookup_eq_none_iff.1 unknown row listed))

theorem lookup_of_mem (distinct : (rows.map Prod.fst).Nodup) (member : (k, a) ∈ rows) :
    rows.lookup k = some a := by
  induction rows with
  | nil => cases member
  | cons row rows ih =>
    obtain ⟨first, rest⟩ := nodup_cons.1 distinct
    rcases mem_cons.1 member with rfl | member
    · exact lookup_cons_self
    · have apart : k ≠ row.1 := fun same => first (same ▸ mem_map_of_mem member)
      rw [lookup_cons, beq_false_of_ne apart]
      exact ih rest member

/-! ## more rows -/

theorem nodup_keys_cons (unknown : rows.lookup k = none) (h : (rows.map Prod.fst).Nodup) :
    (((k, a) :: rows).map Prod.fst).Nodup := by
  refine nodup_cons.2 ⟨fun member => ?_, h⟩
  have known := isSome_lookup.2 member
  rw [unknown] at known
  cases known

theorem lookup_cons_of_new (new : rows.lookup key = none) (known : rows.lookup k = some a) :
    ((key, b) :: rows).lookup k = some a := by
  rw [lookup_cons, beq_false_of_ne fun same => ?_]
  · exact known
  · rw [same, new] at known
    cases known

theorem lookup_append_none {more : List (κ × α)} (new : ∀ row ∈ more, row.1 ≠ k)
    (unknown : rows.lookup k = none) : (more ++ rows).lookup k = none := by
  refine lookup_eq_none_iff.2 (forall_mem_append.2 ⟨?_, lookup_eq_none_iff.1 unknown⟩)
  exact fun row member => bne_iff_ne.2 (new row member).symm

/-! ## other rows -/

theorem lookup_perm {rows' : List (κ × α)} (perm : rows'.Perm rows)
    (distinct : (rows'.map Prod.fst).Nodup) (k : κ) : rows'.lookup k = rows.lookup k := by
  have distinct' : (rows.map Prod.fst).Nodup := (perm.map Prod.fst).nodup_iff.1 distinct
  cases known : rows.lookup k with
  | some a => exact lookup_of_mem distinct (perm.mem_iff.2 (mem_of_lookup known))
  | none =>
    refine Option.eq_none_iff_forall_ne_some.2 fun a there => ?_
    rw [lookup_of_mem distinct' (perm.mem_iff.1 (mem_of_lookup there))] at known
    cases known

theorem lookup_map_rows {κ' β : Type} [BEq κ'] [LawfulBEq κ'] {f : κ → κ'}
    (apart : ∀ row ∈ rows, f k = f row.1 → k = row.1) (g : α → β) :
    (rows.map fun row => (f row.1, g row.2)).lookup (f k) = (rows.lookup k).map g := by
  induction rows with
  | nil => rfl
  | cons row rows ih =>
    obtain ⟨first, rest⟩ := forall_mem_cons.1 apart
    have same : (f k == f row.1) = (k == row.1) := by
      rw [Bool.eq_iff_iff, beq_iff_eq, beq_iff_eq]
      exact ⟨first, congrArg f⟩
    rw [map_cons, lookup_cons, lookup_cons, same, ih rest]
    split <;> rfl

theorem lookup_filter_key (keep : κ → Bool) (rows : List (κ × α)) (k : κ) :
    (rows.filter fun row => keep row.1).lookup k = if keep k then rows.lookup k else none := by
  induction rows with
  | nil => simp
  | cons row rows ih =>
    obtain ⟨key, a⟩ := row
    by_cases same : k = key
    · subst same
      cases kept : keep k with
      | true => simp [kept]
      | false =>
        rw [filter_cons, if_neg (by simp [kept]), ih, kept]
        rfl
    · have other : (k == key) = false := beq_false_of_ne same
      cases kept : keep key with
      | true => rw [filter_cons, if_pos (by exact kept), lookup_cons, other, lookup_cons,
          other, ih]
      | false => rw [filter_cons, if_neg (by simp [kept]), ih, lookup_cons, other]

end

end Terrain
