import Terrain.Artifact.Store
import Terrain.Proofs.Artifacts
import Terrain.Proofs.HexText
import Terrain.Proofs.Lookups

/-!
# Stores answer alike

A store in memory keeps artifacts by digest, a table keeps their bytes by the text of the digest.
Whatever is asked of both, they answer the same: texts of digests are ordered as digests are, bytes
are read as the artifact that was put, in its normal form, and what one refuses the other refuses.

* `StoreCall`, `StoreAnswer`    what is asked, and what comes back;
* `latest`                      what a store should hold after some calls;
* `Answered`                    what should come back, given that;
* `Mirrors`                     the rows of a table are the rows of a memory, written;
* `stores_interchangeable`      both answer alike, list digests in order and hold what was put last.
-/

namespace Terrain

open Hash List

/-! ## calls -/

inductive StoreCall where
  | put (a : Option Artifact)
  | get (d : Digest)
  | has (d : Digest)
  | digests

inductive StoreAnswer where
  | stored
  | found (a : Artifact)
  | there (known : Bool)
  | listed (ds : List Digest)
  | failed (e : ArtifactError)

/-- an artifact as it is read from its bytes -/
def StoreAnswer.normal : StoreAnswer → StoreAnswer
  | found a => found a.normal
  | answer => answer

namespace StoreOps

variable {σ : Type}

/-- the answer of a store, and the store after it; a call that fails changes nothing -/
def step (ops : StoreOps σ) (s : σ) : StoreCall → StoreAnswer × σ
  | .put a =>
    match ops.put s a with
    | .ok s' => (.stored, s')
    | .error e => (.failed e, s)
  | .get d =>
    match ops.get s d with
    | .ok a => (.found a, s)
    | .error e => (.failed e, s)
  | .has d =>
    match ops.has s d with
    | .ok known => (.there known, s)
    | .error e => (.failed e, s)
  | .digests =>
    match ops.digests s with
    | .ok ds => (.listed ds, s)
    | .error e => (.failed e, s)

def after (ops : StoreOps σ) (s : σ) (calls : List StoreCall) : σ :=
  calls.foldl (fun s call => (ops.step s call).2) s

end StoreOps

/-- what a call leaves at a digest, after what was there -/
def StoreCall.kept (d : Digest) (before : Option Artifact) : StoreCall → Option Artifact
  | put (some a) => if a.check.isOk ∧ a.digest = d then some a else before
  | _ => before

def latest (calls : List StoreCall) (d : Digest) : Option Artifact :=
  calls.foldl (fun before call => call.kept d before) none

/-- numbers and lists are no larger than their fields -/
structure Artifact.Fits (a : Artifact) : Prop where
  source : IsSized a.source
  workgroup : IsWord a.workgroup
  dispatches : a.dispatches.length ≤ Cbor.Item.maxElements ∧ ∀ d ∈ a.dispatches, d.Sendable
  buffers : ∀ bs, a.buffers = some bs → bs.length ≤ Cbor.Item.maxElements ∧ ∀ b ∈ bs, b.Sendable
  parameters : ∀ ps, a.parameters = some ps → ps.length ≤ Cbor.Item.maxElements ∧
    ∀ p ∈ ps, p.Sendable

theorem Artifact.Fits.sendable {a : Artifact} (h : a.Fits) (checked : a.check = .ok ()) :
    a.Sendable := ⟨checked, h.source, h.workgroup, h.dispatches, h.buffers, h.parameters⟩

def StoreCall.Fits : StoreCall → Prop
  | put (some a) => a.Fits
  | _ => True

inductive Answered (content : Digest → Option Artifact) : StoreCall → StoreAnswer → Prop where
  | missing : Answered content (.put none) (.failed .missing)
  | refused {a : Artifact} {e : ArtifactError} (checked : a.check = .error e) :
    Answered content (.put (some a)) (.failed e)
  | stored {a : Artifact} (checked : a.check = .ok ()) : Answered content (.put (some a)) .stored
  | found {d : Digest} {a : Artifact} (known : content d = some a) :
    Answered content (.get d) (.found a)
  | absent {d : Digest} (unknown : content d = none) : Answered content (.get d) (.failed .notFound)
  | there (d : Digest) : Answered content (.has d) (.there (content d).isSome)
  | listed {ds : List Digest} (ascending : ds.Pairwise fun d e => d.bytes < e.bytes)
      (known : ∀ d, d ∈ ds ↔ (content d).isSome) : Answered content .digests (.listed ds)

/-! ## lists in key order -/

section
variable {κ κ' α β : Type} [BEq κ] [LawfulBEq κ] [BEq κ'] [LawfulBEq κ']

theorem lookup_insertSorted (le : κ → κ → Bool) (k : κ) (a : α) (rows : List (κ × α)) (k' : κ) :
    (insertSorted le k a rows).lookup k' = if k' == k then some a else rows.lookup k' := by
  induction rows with
  | nil =>
    by_cases same : k' = k
    · simp [insertSorted, same]
    · simp [insertSorted, lookup_cons, beq_false_of_ne same]
  | cons row rows ih =>
    obtain ⟨key, b⟩ := row
    unfold insertSorted
    split
    · next eq =>
      obtain rfl := eq_of_beq eq
      rw [lookup_cons, lookup_cons]
      by_cases same : k' = k
      · simp [same]
      · simp [beq_false_of_ne same]
    split
    · rw [lookup_cons]
      by_cases same : k' = k
      · simp [same]
      · simp [beq_false_of_ne same]
    · next ne _ =>
      rw [lookup_cons, lookup_cons, ih]
      by_cases own : k' = key
      · subst own
        have other : k' ≠ k := fun eq => ne (beq_iff_eq.2 eq.symm)
        simp [other]
      · rw [beq_false_of_ne own]

omit [LawfulBEq κ] in
theorem mem_insertSorted {le : κ → κ → Bool} {k : κ} {a : α} {rows : List (κ × α)} {row : κ × α}
    (member : row ∈ insertSorted le k a rows) : row = (k, a) ∨ row ∈ rows := by
  induction rows with
  | nil => exact .inl (mem_singleton.1 member)
  | cons first rows ih =>
    unfold insertSorted at member
    split at member
    · exact (mem_cons.1 member).imp_right (mem_cons_of_mem _)
    split at member
    · exact (mem_cons.1 member).imp_right id
    · rcases mem_cons.1 member with rfl | member
      · exact .inr (.head _)
      · exact (ih member).imp_right (mem_cons_of_mem _)

theorem map_insertSorted {f : κ → κ'} (inj : ∀ {a b}, f a = f b → a = b) (g : α → β)
    (le : κ → κ → Bool) (le' : κ' → κ' → Bool) (order : ∀ a b, le' (f a) (f b) = le a b) (k : κ)
    (a : α) (rows : List (κ × α)) :
    (insertSorted le k a rows).map (fun row => (f row.1, g row.2)) =
      insertSorted le' (f k) (g a) (rows.map fun row => (f row.1, g row.2)) := by
  induction rows with
  | nil => rfl
  | cons row rows ih =>
    obtain ⟨key, b⟩ := row
    have same : (f k == f key) = (k == key) := by
      by_cases eq : k = key
      · simp [eq]
      · rw [beq_false_of_ne eq, beq_false_of_ne fun same => eq (inj same)]
    rw [map_cons]
    unfold insertSorted
    rw [same, order, ← ih]
    split
    · rfl
    split <;> rfl

end

/-! ## the order of digests -/

theorem bytesLe_iff (as bs : List UInt8) : bytesLe as bs = true ↔ ¬ bs < as := by
  induction as generalizing bs with
  | nil => exact ⟨fun _ => not_lt_nil _, fun _ => rfl⟩
  | cons a as ih =>
    cases bs with
    | nil => exact ⟨nofun, fun h => absurd (nil_lt_cons _ _) h⟩
    | cons b bs =>
      unfold bytesLe
      rw [cons_lt_cons_iff]
      split
      · next less =>
        refine ⟨fun _ more => ?_, fun _ => rfl⟩
        rcases more with more | ⟨rfl, -⟩
        · exact absurd more (UInt8.lt_asymm less)
        · exact absurd less (UInt8.lt_irrefl _)
      · next notLess =>
        split
        · next more => exact ⟨nofun, fun h => absurd (.inl more) h⟩
        · next notMore =>
          have same : b = a := UInt8.le_antisymm (UInt8.not_lt.1 notLess) (UInt8.not_lt.1 notMore)
          rw [ih]
          exact ⟨fun h more => more.elim notMore fun more => h more.2,
            fun h more => h (.inr ⟨same, more⟩)⟩

theorem le_text (d e : Digest) : decide (d.text ≤ e.text) = d.le e := by
  have iff : d.text ≤ e.text ↔ d.le e = true := by
    rw [← String.not_lt, Digest.text_lt_iff]
    exact (bytesLe_iff _ _).symm
  rw [Bool.eq_iff_iff, decide_eq_true_iff, iff]

/-- rows in the order of their digests, none twice -/
def Ascending {α : Type} (rows : List (Digest × α)) : Prop :=
  rows.Pairwise fun p q => p.1.bytes < q.1.bytes

theorem bytes_lt_of_le {d e : Digest} (le : d.le e = true) (ne : ¬ (d == e) = true) :
    d.bytes < e.bytes := by
  have notMore := (bytesLe_iff _ _).1 le
  refine Decidable.byContradiction fun notLess => ne ?_
  have same : d.bytes = e.bytes := List.le_antisymm notMore notLess
  obtain ⟨bytes, length⟩ := d
  cases same
  exact beq_self_eq_true _

theorem ascending_insertSorted {α : Type} {rows : List (Digest × α)} (h : Ascending rows)
    (d : Digest) (a : α) : Ascending (insertSorted Digest.le d a rows) := by
  induction rows with
  | nil => exact pairwise_singleton _ _
  | cons row rows ih =>
    obtain ⟨key, b⟩ := row
    obtain ⟨first, rest⟩ := pairwise_cons.1 h
    unfold insertSorted
    split
    · next eq =>
      obtain rfl := eq_of_beq eq
      exact pairwise_cons.2 ⟨first, rest⟩
    · next ne =>
      split
      · next le =>
        have less := bytes_lt_of_le le ne
        refine pairwise_cons.2 ⟨forall_mem_cons.2 ⟨less, fun row member => ?_⟩, h⟩
        exact List.lt_trans less (first row member)
      · next notLe =>
        have less : key.bytes < d.bytes :=
          Decidable.byContradiction fun notLess => notLe ((bytesLe_iff _ _).2 notLess)
        refine pairwise_cons.2 ⟨fun row member => ?_, ih rest⟩
        rcases mem_insertSorted member with rfl | member
        · exact less
        · exact first row member

/-! ## in memory -/

/-- a memory holds some artifacts, in the order of their digests -/
structure MemoryStore.Holds (content : Digest → Option Artifact) (m : MemoryStore) : Prop where
  ascending : Ascending m.rows
  lookup : ∀ d, m.rows.lookup d = content d

namespace MemoryStore
variable {content : Digest → Option Artifact} {m : MemoryStore}

theorem holds_empty : empty.Holds fun _ => none := ⟨.nil, fun _ => rfl⟩

section
variable (h : m.Holds content)
include h

theorem Holds.mem_digests (d : Digest) : d ∈ m.digests ↔ (content d).isSome := by
  rw [← h.lookup, isSome_lookup]
  rfl

theorem Holds.put (a : Artifact) (checked : a.check = .ok ()) :
    Holds (fun d => (StoreCall.put (some a)).kept d (content d))
      ⟨insertSorted Digest.le a.digest a m.rows⟩ where
  ascending := ascending_insertSorted h.ascending _ _
  lookup d := by
    rw [lookup_insertSorted, h.lookup]
    show _ = if a.check.isOk ∧ a.digest = d then some a else content d
    rw [checked]
    by_cases same : d = a.digest
    · rw [if_pos (beq_iff_eq.2 same), if_pos ⟨rfl, same.symm⟩]
    · rw [if_neg fun eq => same (beq_iff_eq.1 eq), if_neg fun both => same both.2.symm]

/-- one call: the answer is right, and so is what is held after it -/
theorem Holds.step (call : StoreCall) :
    Answered content call (ops.step m call).1 ∧
      (ops.step m call).2.Holds fun d => call.kept d (content d) := by
  cases call with
  | put a =>
    cases a with
    | none => exact ⟨.missing, h⟩
    | some a =>
      cases checked : a.check with
      | error e =>
        have step : ops.step m (.put (some a)) = (.failed e, m) := by
          simp [StoreOps.step, ops, MemoryStore.put, checked, Except.map]
        rw [step]
        refine ⟨.refused checked, ?_⟩
        have same : (fun d => (StoreCall.put (some a)).kept d (content d)) = content := by
          funext d
          simp [StoreCall.kept, checked, Except.isOk, Except.toBool]
        rw [same]
        exact h
      | ok =>
        have step : ops.step m (.put (some a)) =
            (.stored, ⟨insertSorted Digest.le a.digest a m.rows⟩) := by
          simp [StoreOps.step, ops, MemoryStore.put, checked, Except.map]
        rw [step]
        exact ⟨.stored checked, h.put a checked⟩
  | get d =>
    cases known : content d with
    | none =>
      have step : ops.step m (.get d) = (.failed .notFound, m) := by
        simp [StoreOps.step, ops, MemoryStore.get, h.lookup, known]
      rw [step]
      exact ⟨.absent known, h⟩
    | some a =>
      have step : ops.step m (.get d) = (.found a, m) := by
        simp [StoreOps.step, ops, MemoryStore.get, h.lookup, known]
      rw [step]
      exact ⟨.found known, h⟩
  | has d =>
    have step : ops.step m (.has d) = (.there (content d).isSome, m) := by
      simp [StoreOps.step, ops, MemoryStore.has, h.lookup]
    rw [step]
    exact ⟨.there d, h⟩
  | digests => exact ⟨.listed (pairwise_map.2 h.ascending) h.mem_digests, h⟩

theorem Holds.after (calls : List StoreCall) :
    (ops.after m calls).Holds fun d =>
      calls.foldl (fun before call => call.kept d before) (content d) := by
  induction calls generalizing m content with
  | nil => exact h
  | cons call calls ih => exact ih (h.step call).2

end

end MemoryStore

/-! ## in a table -/

structure Mirrors (m : MemoryStore) (t : TableStore) : Prop where
  opened : t.closed = false
  rows : t.rows = m.rows.map fun row => (row.1.text, row.2.toItem.write)
  kept : ∀ row ∈ m.rows, row.2.digest = row.1 ∧ row.2.Sendable

namespace Mirrors
variable {m : MemoryStore} {t : TableStore} (h : Mirrors m t)
include h

theorem lookup (d : Digest) : t.rows.lookup d.text = (m.rows.lookup d).map (·.toItem.write) := by
  rw [h.rows]
  exact lookup_map_rows (f := Digest.text) (fun _ _ => Digest.text_inj) fun a : Artifact =>
    a.toItem.write

theorem readKeys : TableStore.readKeys (t.rows.map Prod.fst) = .ok m.digests := by
  rw [h.rows, map_map]
  unfold MemoryStore.digests
  generalize m.rows = rows
  induction rows with
  | nil => rfl
  | cons row rows ih =>
    rw [map_cons, map_cons]
    unfold TableStore.readKeys
    dsimp only [Function.comp]
    rw [Digest.parse_text]
    show (TableStore.readKeys _).map _ = _
    rw [ih]
    rfl

theorem put {a : Artifact} (fits : a.Sendable) :
    Mirrors ⟨insertSorted Digest.le a.digest a m.rows⟩ (t.write a.digest.text a.toItem.write) where
  opened := h.opened
  rows := by
    unfold TableStore.write
    rw [h.rows]
    exact (map_insertSorted Digest.text_inj (·.toItem.write) Digest.le (fun x y => decide (x ≤ y))
      le_text a.digest a m.rows).symm
  kept row member := by
    rcases mem_insertSorted member with rfl | member
    · exact ⟨rfl, fits⟩
    · exact h.kept row member

theorem get (d : Digest) : t.get d = (m.get d).map Artifact.normal := by
  unfold TableStore.get MemoryStore.get
  rw [h.opened, h.lookup]
  cases known : m.rows.lookup d with
  | none => rfl
  | some a =>
    obtain ⟨same, fits⟩ := h.kept (d, a) (mem_of_lookup known)
    rw [if_neg Bool.false_ne_true, Option.map_some]
    dsimp only
    rw [Artifact.unmarshal_write fits]
    exact if_pos same

theorem step {call : StoreCall} (fits : call.Fits) :
    (TableStore.ops.step t call).1 = (MemoryStore.ops.step m call).1.normal ∧
      Mirrors (MemoryStore.ops.step m call).2 (TableStore.ops.step t call).2 := by
  cases call with
  | put a =>
    cases a with
    | none => exact ⟨rfl, h⟩
    | some a =>
      cases checked : a.check with
      | error e =>
        simp only [StoreOps.step, MemoryStore.ops, MemoryStore.put, TableStore.ops, TableStore.put,
          Artifact.marshal, checked, Except.map]
        exact ⟨rfl, h⟩
      | ok =>
        simp only [StoreOps.step, MemoryStore.ops, MemoryStore.put, TableStore.ops, TableStore.put,
          Artifact.marshal, checked, Except.map, h.opened, Bool.false_eq_true, if_false]
        exact ⟨rfl, h.put (Artifact.Fits.sendable fits checked)⟩
  | get d =>
    simp only [StoreOps.step, MemoryStore.ops, TableStore.ops, h.get]
    cases m.get d <;> exact ⟨rfl, h⟩
  | has d =>
    simp only [StoreOps.step, MemoryStore.ops, TableStore.ops, TableStore.has, MemoryStore.has,
      h.opened, h.lookup, Option.isSome_map, Bool.false_eq_true, if_false]
    exact ⟨rfl, h⟩
  | digests =>
    simp only [StoreOps.step, MemoryStore.ops, TableStore.ops, TableStore.digests, h.opened,
      h.readKeys, Bool.false_eq_true, if_false]
    exact ⟨rfl, h⟩

theorem after (calls : List StoreCall) (fit : ∀ call ∈ calls, call.Fits) :
    Mirrors (MemoryStore.ops.after m calls) (TableStore.ops.after t calls) := by
  induction calls generalizing m t with
  | nil => exact h
  | cons call calls ih =>
    obtain ⟨first, rest⟩ := forall_mem_cons.1 fit
    exact ih (h.step first).2 rest

end Mirrors

theorem StoreOps.step_failed {σ : Type} (ops : StoreOps σ) (s : σ) (call : StoreCall)
    {e : ArtifactError} (failed : (ops.step s call).1 = .failed e) : (ops.step s call).2 = s := by
  cases call with
  | put a =>
    unfold StoreOps.step at failed ⊢
    dsimp only at failed ⊢
    split at failed
    · cases failed
    · rfl
  | get d | has d | digests => unfold StoreOps.step; dsimp only; split <;> rfl

/-- **Stores are interchangeable.**  After any calls, a memory and a table that were empty answer
the next one as they should, given what was put last; the table answers with the normal form of what
the memory answers.  A call that fails changes neither. -/
theorem stores_interchangeable (path : String) (before : List StoreCall) (call : StoreCall)
    (fit : ∀ c ∈ call :: before, c.Fits) :
    ∃ answer, Answered (latest before) call answer ∧
      (MemoryStore.ops.step (MemoryStore.ops.after .empty before) call).1 = answer ∧
      (TableStore.ops.step (TableStore.ops.after (.empty path) before) call).1 = answer.normal ∧
      ∀ e, answer = .failed e →
        MemoryStore.ops.after .empty (before ++ [call]) = MemoryStore.ops.after .empty before ∧
        TableStore.ops.after (.empty path) (before ++ [call]) =
          TableStore.ops.after (.empty path) before := by
  obtain ⟨next, earlier⟩ := List.forall_mem_cons.1 fit
  have start : Mirrors .empty (.empty path) := ⟨rfl, rfl, nofun⟩
  obtain ⟨alike, -⟩ := (start.after before earlier).step next
  refine ⟨_, ((MemoryStore.holds_empty.after before).step call).1, rfl, alike, fun e failed => ?_⟩
  unfold StoreOps.after
  rw [List.foldl_append, List.foldl_append]
  have failed' := alike
  rw [failed] at failed'
  exact ⟨StoreOps.step_failed _ _ _ failed, StoreOps.step_failed _ _ _ failed'⟩

/-- nothing, an artifact without dispatches, one with a NaN and an empty list, and one that
replaces it -/
def mixedCalls : List StoreCall :=
  [.put none, .put (some ⟨.ofBytes [2], "", 0, [], none, none⟩),
    .put (some (extremeArtifact ⟨0xffc12345⟩ none)),
    .put (some (extremeArtifact ⟨0x7f800001⟩ (some [])))]

theorem fits_mixedCalls : ∀ c ∈ mixedCalls, c.Fits := by
  have extreme : ∀ nan buffers, (∀ bs, buffers = some bs → bs = []) →
      (extremeArtifact nan buffers).Fits :=
    fun nan buffers none =>
      have h := sendable_extremeArtifact nan none
      ⟨h.source, h.workgroup, h.dispatches, h.buffers, h.parameters⟩
  have bare : Artifact.Fits ⟨.ofBytes [2], "", 0, [], none, none⟩ :=
    ⟨by decide, by decide, ⟨by decide, nofun⟩, nofun, nofun⟩
  unfold mixedCalls
  simp only [forall_mem_cons, StoreCall.Fits]
  exact ⟨trivial, bare, extreme _ _ nofun, extreme _ _ fun bs eq =>
    (Option.some.inj eq).symm, nofun⟩

/-- the artifact that was put last is there, from the table with the quiet NaN and no list -/
theorem stores_interchangeable_mixed :
    (MemoryStore.ops.step (MemoryStore.ops.after .empty mixedCalls) (.get (.ofBytes [1]))).1 =
        .found (extremeArtifact ⟨0x7f800001⟩ (some [])) ∧
      (TableStore.ops.step (TableStore.ops.after (.empty "a.db") mixedCalls)
        (.get (.ofBytes [1]))).1 = .found (extremeArtifact ⟨0x7fc00000⟩ none) := by
  have last : latest mixedCalls (.ofBytes [1]) = some (extremeArtifact ⟨0x7f800001⟩ (some [])) := by
    decide
  have normal : (extremeArtifact ⟨0x7f800001⟩ (some [])).normal =
      extremeArtifact ⟨0x7fc00000⟩ none := by
    decide
  obtain ⟨answer, answered, memory, table, -⟩ :=
    stores_interchangeable "a.db" mixedCalls (.get (.ofBytes [1]))
      (List.forall_mem_cons.2 ⟨trivial, fits_mixedCalls⟩)
  rw [memory, table]
  cases answered with
  | found known =>
    rw [last] at known
    cases known
    exact ⟨rfl, congrArg StoreAnswer.found normal⟩
  | absent unknown =>
    rw [last] at unknown
    cases unknown

end Terrain
