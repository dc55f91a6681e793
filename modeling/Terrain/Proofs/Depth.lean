import Terrain.Proofs.Kept

/-!
# Depths of dispatches

A dispatch lies deeper than every dispatch that reads it, and not deeper than it has to: some
reader lies just above it.  When a dispatch is read once more, it is raised together with all that
it reads, and both facts hold again.  They need an order in which nothing reads itself in a
roundabout way, given by a number for each dispatch (`key`) that falls along reads.

* `Raised`              what raising a dispatch does;
* `raiseDepth_raised`   raising does it, when the chains of reads are shorter than its bound;
* `Deep`                depths are as they should be;
* `Deep.readAgain`, `Deep.cacheOpened`   reads of known caches and of new ones keep them so.
-/

namespace Terrain.Compile

open List

variable {e d reader : DispatchId}

/-- a dispatch lies above everything that it reads -/
def Above (c : Context) (d : DispatchId) : Prop :=
  ∀ e ∈ (c.entry d).reads, (c.entry d).depth + 1 ≤ (c.entry e).depth

section
variable {c c' x y : Context} {lv : DispatchId → Nat} {id : DispatchId} {k : Int}

/-! ## raising -/

/-- dispatches are moved down, and none is moved above what it reads -/
structure Lowered (c c' : Context) : Prop where
  size : c'.entries.size = c.entries.size
  reads : ∀ d, (c'.entry d).reads = (c.entry d).reads
  mono : ∀ d, (c.entry d).depth ≤ (c'.entry d).depth
  lower : ∀ d < c.entries.size, Above c d → Above c' d

structure Raised (lv : DispatchId → Nat) (id : DispatchId) (k : Int) (c c' : Context) : Prop
    extends Lowered c c' where
  others : ∀ d, d ≠ id → lv id ≤ lv d → (c'.entry d).depth = (c.entry d).depth
  reached : k ≤ (c'.entry id).depth
  exact : (c'.entry id).depth = (c.entry id).depth ∨ (c'.entry id).depth = k
  upper : ∀ d < c.entries.size, (c'.entry d).depth = (c.entry d).depth ∨ d = id ∨
    ∃ p < c.entries.size, d ∈ (c.entry p).reads ∧ (c'.entry d).depth ≤ (c'.entry p).depth + 1

/-- what raising the reads of a dispatch does, which itself stays where it is -/
structure Lifted (lv : DispatchId → Nat) (id : DispatchId) (c c' : Context) : Prop
    extends Lowered c c' where
  others : ∀ d, lv id ≤ lv d → (c'.entry d).depth = (c.entry d).depth
  upper : ∀ d < c.entries.size, (c'.entry d).depth = (c.entry d).depth ∨
    ∃ p < c.entries.size, d ∈ (c.entry p).reads ∧ (c'.entry d).depth ≤ (c'.entry p).depth + 1

theorem Lowered.refl (c : Context) : Lowered c c :=
  ⟨rfl, fun _ => rfl, fun _ => le_rfl, fun _ _ h => h⟩

theorem Lifted.refl (c : Context) : Lifted lv id c c :=
  ⟨.refl c, fun _ _ => rfl, fun _ _ => .inl rfl⟩

theorem Lifted.trans (h : Lifted lv id c x) (h' : Lifted lv id x y) : Lifted lv id c y where
  size := h'.size.trans h.size
  reads d := (h'.reads d).trans (h.reads d)
  mono d := le_trans (h.mono d) (h'.mono d)
  others d high := (h'.others d high).trans (h.others d high)
  lower d inside above := h'.lower d (h.size ▸ inside) (h.lower d inside above)
  upper d inside := by
    rcases h'.upper d (h.size ▸ inside) with same | ⟨p, inside', reads, le⟩
    · rcases h.upper d inside with same' | ⟨p, inside', reads, le⟩
      · exact .inl (same.trans same')
      · have := h'.mono p
        exact .inr ⟨p, inside', reads, by omega⟩
    · rw [h.size] at inside'
      rw [h.reads] at reads
      exact .inr ⟨p, inside', reads, le⟩

theorem Raised.lifted (h : Raised lv e ((c.entry id).depth + 1) c x) (inside : id < c.entries.size)
    (read : e ∈ (c.entry id).reads) (below : lv e < lv id) : Lifted lv id c x where
  toLowered := h.toLowered
  others d high := h.others d (fun same => by subst same; omega) (by omega)
  upper d inside' := by
    rcases h.upper d inside' with same | rfl | witness
    · exact .inl same
    · rcases h.exact with same | reached
      · exact .inl same
      · have := h.mono id
        exact .inr ⟨id, inside, read, by omega⟩
    · exact .inr witness

theorem lifted_foldl (raise : DispatchId → Context → Context) (es : List DispatchId) (c x : Context)
    (lifted : Lifted lv id c x) (inside : id < c.entries.size)
    (reads : ∀ e ∈ es, e ∈ (c.entry id).reads ∧ lv e < lv id)
    (step : ∀ e ∈ es, ∀ x, Lifted lv id c x → Raised lv e ((c.entry id).depth + 1) x (raise e x)) :
    Lifted lv id x (es.foldl (fun x e => raise e x) x) ∧
      ∀ e ∈ es, (c.entry id).depth + 1 ≤ ((es.foldl (fun x e => raise e x) x).entry e).depth := by
  induction es generalizing x with
  | nil => exact ⟨.refl x, by simp⟩
  | cons e es ih =>
    obtain ⟨read, below⟩ := reads e (.head _)
    have raised := step e (.head _) x lifted
    have still : (x.entry id).depth = (c.entry id).depth := lifted.others id (le_rfl)
    have here : Lifted lv id x (raise e x) := by
      rw [← still] at raised
      exact raised.lifted (lifted.size ▸ inside) ((lifted.reads id).symm ▸ read) below
    obtain ⟨rest, reached⟩ := ih (raise e x) (lifted.trans here)
      (fun e h => reads e (.tail _ h)) (fun e h => step e (.tail _ h))
    exact ⟨here.trans rest, forall_mem_cons.2 ⟨le_trans raised.reached (rest.mono _), reached⟩⟩

theorem entry_setDepth (c : Context) (id : DispatchId) (k : Int) (inside : id < c.entries.size)
    (d : DispatchId) :
    (c.modifyEntry id fun e => { e with depth := k }).entry d =
      { c.entry d with depth := if id = d then k else (c.entry d).depth } := by
  by_cases there : d < c.entries.size
  · rw [entry_modifyEntry c id d _ there]
    split <;> rfl
  · have other : id ≠ d := fun same => there (same ▸ inside)
    rw [if_neg other]
    unfold Context.entry Context.modifyEntry
    have outside : c.entries.size ≤ d := not_lt.1 there
    simp [outside]

theorem raiseDepth_raised (fuel : Nat) (id : DispatchId) (k : Int) (c : Context)
    (ranked : ∀ d < c.entries.size, ∀ e ∈ (c.entry d).reads, e < c.entries.size ∧ lv e < lv d)
    (inside : id < c.entries.size) (enough : lv id < fuel)
    (lower : ∀ d < c.entries.size, lv d ≤ lv id → Above c d) :
    Raised lv id k c (raiseDepth fuel id k c) := by
  induction fuel generalizing id k c with
  | zero => omega
  | succ fuel ih =>
    rw [raiseDepth_succ]
    split
    case isTrue reached =>
      exact ⟨.refl c, fun _ _ _ => rfl, reached, .inl rfl, fun _ _ => .inl rfl⟩
    case isFalse higher =>
      have set := entry_setDepth c id k inside
      have size := size_modifyEntry c id fun e => { e with depth := k }
      generalize c.modifyEntry id (fun e => { e with depth := k }) = c₁ at set size ⊢
      have reads (d : DispatchId) : (c₁.entry d).reads = (c.entry d).reads := by rw [set]
      have own : (c₁.entry id).depth = k := by rw [set, if_pos rfl]
      have other {d : DispatchId} (h : d ≠ id) : (c₁.entry d).depth = (c.entry d).depth := by
        rw [set, if_neg (Ne.symm h)]
      have mono (d : DispatchId) : (c.entry d).depth ≤ (c₁.entry d).depth := by
        by_cases same : d = id
        · subst same
          omega
        · exact le_of_eq (other same).symm
      have above {d : DispatchId} (h : d ≠ id) (holds : Above c d) : Above c₁ d := by
        intro e read
        rw [reads] at read
        have := holds e read
        have := mono e
        rw [other h]
        omega
      have step : ∀ e ∈ (c.entry id).reads, ∀ x, Lifted lv id c₁ x →
          Raised lv e ((c₁.entry id).depth + 1) x (raiseDepth fuel e (k + 1) x) := by
        intro e read x lifted
        obtain ⟨inside', below⟩ := ranked id inside e read
        rw [own]
        have same : x.entries.size = c.entries.size := lifted.size.trans size
        refine ih e (k + 1) x ?_ (same ▸ inside') (by omega) ?_
        · intro d inside'' e' read'
          rw [lifted.reads, reads] at read'
          rw [same] at inside'' ⊢
          exact ranked d inside'' e' read'
        · intro d inside'' low
          have apart : d ≠ id := fun same => by subst same; omega
          rw [same] at inside''
          exact lifted.lower d (size ▸ inside'') (above apart (lower d inside'' (by omega)))
      obtain ⟨lifted, reached⟩ := lifted_foldl (fun e x => raiseDepth fuel e (k + 1) x)
        (c.entry id).reads c₁ c₁ (.refl c₁) (size ▸ inside)
        (fun e read => ⟨(reads id).symm ▸ read, (ranked id inside e read).2⟩) step
      generalize (c.entry id).reads.foldl (fun x e => raiseDepth fuel e (k + 1) x) c₁ = y at *
      refine ⟨⟨lifted.size.trans size, fun d => (lifted.reads d).trans (reads d),
        fun d => le_trans (mono d) (lifted.mono d), ?_⟩,
        fun d h high => (lifted.others d high).trans (other h), ?_, ?_, ?_⟩
      · intro d inside' holds
        by_cases same : d = id
        · subst same
          intro e read
          rw [lifted.reads, reads] at read
          rw [lifted.others d (le_rfl)]
          exact reached e read
        · exact lifted.lower d (size ▸ inside') (above same holds)
      · exact le_of_eq ((lifted.others id (le_rfl)).trans own).symm
      · rw [lifted.others id (le_rfl), own]
        exact .inr rfl
      · intro d inside'
        rcases lifted.upper d (size ▸ inside') with same | ⟨p, inside'', read, le⟩
        · by_cases here : d = id
          · exact .inr (.inl here)
          · exact .inl (same.trans (other here))
        · rw [reads] at read
          rw [size] at inside''
          exact .inr (.inr ⟨p, inside'', read, le⟩)

/-! ## levels -/

/-- how many dispatches have a smaller key -/
def level (key : DispatchId → Nat) (size : Nat) (d : DispatchId) : Nat :=
  (List.range size).countP fun e => key e < key d

theorem level_le_size (key : DispatchId → Nat) (size : Nat) (d : DispatchId) :
    level key size d ≤ size := by
  have := countP_le_length (p := fun e => decide (key e < key d)) (l := List.range size)
  rwa [length_range] at this

theorem level_le {key : DispatchId → Nat} (size : Nat) (h : key e ≤ key d) :
    level key size e ≤ level key size d := by
  refine countP_mono_left fun x _ below => ?_
  simp only [decide_eq_true_eq] at below ⊢
  omega

theorem level_lt {key : DispatchId → Nat} {size d e : Nat} (inside : e < size) (h : key e < key d) :
    level key size e < level key size d := by
  -- all that is below `e` is below `d`, and so is `e`
  obtain ⟨before, after, split⟩ := append_of_mem (mem_range.2 inside)
  unfold level
  rw [split, countP_append, countP_append, countP_cons, countP_cons]
  have left : before.countP (fun x => key x < key e) ≤ before.countP fun x => key x < key d :=
    countP_mono_left fun x _ below => by
      simp only [decide_eq_true_eq] at below ⊢
      omega
  have right : after.countP (fun x => key x < key e) ≤ after.countP fun x => key x < key d :=
    countP_mono_left fun x _ below => by
      simp only [decide_eq_true_eq] at below ⊢
      omega
  simp only [lt_irrefl, decide_false, Bool.false_eq_true, if_false, h, decide_true, if_true]
  omega

/-! ## depths -/

/-- depths are as they should be: below all readers, and just below one of them -/
structure Deep (key : DispatchId → Nat) (c : Context) : Prop where
  ranked : ∀ d < c.entries.size, ∀ e ∈ (c.entry d).reads,
    0 < e ∧ e < c.entries.size ∧ key e < key d
  lower : ∀ d < c.entries.size, Above c d
  upper : ∀ e < c.entries.size, 0 < e →
    ∃ d < c.entries.size, e ∈ (c.entry d).reads ∧ (c.entry e).depth ≤ (c.entry d).depth + 1
  main : (c.entry 0).depth = 0

variable {key : DispatchId → Nat}

/-- nothing but reads and depths matters -/
theorem Deep.congr (h : Deep key c) (size : c'.entries.size = c.entries.size)
    (some : 0 < c.entries.size)
    (reads : ∀ d < c.entries.size, (c'.entry d).reads = (c.entry d).reads)
    (depth : ∀ d < c.entries.size, (c'.entry d).depth = (c.entry d).depth) : Deep key c' where
  ranked d inside e read := by
    rw [size] at inside ⊢
    rw [reads d inside] at read
    exact h.ranked d inside e read
  lower d inside e read := by
    rw [size] at inside
    rw [reads d inside] at read
    rw [depth d inside, depth e (h.ranked d inside e read).2.1]
    exact h.lower d inside e read
  upper e inside positive := by
    rw [size] at inside
    obtain ⟨d, inside', read, le⟩ := h.upper e inside positive
    exact ⟨d, size ▸ inside', (reads d inside').symm ▸ read,
      by rw [depth d inside', depth e inside]; exact le⟩
  main := (depth 0 some).trans h.main

theorem Deep.congr_key {key' : DispatchId → Nat} (h : Deep key c)
    (same : ∀ d < c.entries.size, key' d = key d) : Deep key' c :=
  { h with
    ranked := fun d inside e read => by
      obtain ⟨positive, inside', lower⟩ := h.ranked d inside e read
      exact ⟨positive, inside', by rw [same d inside, same e inside']; exact lower⟩ }

theorem entry_addRead (c : Context) (reader id : DispatchId) (inside : d < c.entries.size) :
    (c.modifyEntry reader fun e => { e with reads := e.reads ++ [id] }).entry d =
      { c.entry d with
        reads := if reader = d then (c.entry d).reads ++ [id] else (c.entry d).reads } := by
  rw [entry_modifyEntry c reader d _ inside]
  split <;> rfl

theorem mem_ite_append {α : Type} {p : Prop} [Decidable p] {xs : List α} {x y : α} :
    x ∈ (if p then xs ++ [y] else xs) ↔ x ∈ xs ∨ p ∧ x = y := by
  split
  case isTrue holds => simp [holds]
  case isFalse fails => simp [fails]

theorem mem_reads_addRead (inside : d < c.entries.size) :
    e ∈ ((c.modifyEntry reader fun e => { e with reads := e.reads ++ [id] }).entry d).reads ↔
      e ∈ (c.entry d).reads ∨ reader = d ∧ e = id := by
  rw [entry_addRead c reader id inside]
  exact mem_ite_append

theorem Deep.readAgain (h : Deep key c) (inside : reader < c.entries.size) (positive : 0 < id)
    (inside' : id < c.entries.size) (lower : key id < key reader) (last : key id < key 0) :
    Deep key (c.readAgain reader id) := by
  have raised : Raised (level key c.entries.size) id ((c.entry reader).depth + 1) c
      (raiseDepth (c.entries.size + 1) id ((c.entry reader).depth + 1) c) := by
    refine raiseDepth_raised _ id _ c ?_ inside' ?_ fun d there _ => h.lower d there
    · intro d there e read
      obtain ⟨-, there', falls⟩ := h.ranked d there e read
      exact ⟨there', level_lt there' falls⟩
    · have := level_le_size key c.entries.size id
      omega
  unfold Context.readAgain
  generalize raiseDepth (c.entries.size + 1) id ((c.entry reader).depth + 1) c = y at raised ⊢
  have size : (y.modifyEntry reader fun e => { e with reads := e.reads ++ [id] }).entries.size =
      c.entries.size := (size_modifyEntry _ _ _).trans raised.size
  have read {d e : DispatchId} (there : d < c.entries.size) :
      e ∈ ((y.modifyEntry reader fun e => { e with reads := e.reads ++ [id] }).entry d).reads ↔
        e ∈ (c.entry d).reads ∨ reader = d ∧ e = id := by
    rw [mem_reads_addRead (raised.size ▸ there), raised.reads]
  have depth {d : DispatchId} (there : d < c.entries.size) :
      ((y.modifyEntry reader fun e => { e with reads := e.reads ++ [id] }).entry d).depth =
        (y.entry d).depth := by
    rw [entry_addRead y reader id (raised.size ▸ there)]
  have still (d : DispatchId) (falls : key id < key d) : (y.entry d).depth = (c.entry d).depth :=
    raised.others d (fun same => by subst same; omega) (level_le _ (falls.le))
  suffices Deep key (y.modifyEntry reader fun e => { e with reads := e.reads ++ [id] }) from
    this.congr rfl (size ▸ Nat.zero_lt_of_lt inside) (fun _ _ => rfl) fun _ _ => rfl
  generalize (y.modifyEntry reader fun e => { e with reads := e.reads ++ [id] }) =
    z at size read depth ⊢
  refine ⟨?_, ?_, ?_, ?_⟩
  · intro d there e member
    rw [size] at there ⊢
    rcases (read there).1 member with member | ⟨rfl, rfl⟩
    · exact h.ranked d there e member
    · exact ⟨positive, inside', lower⟩
  · intro d there e member
    rw [size] at there
    rw [depth there]
    rcases (read there).1 member with member | ⟨rfl, rfl⟩
    · rw [depth (h.ranked d there e member).2.1]
      exact raised.lower d there (h.lower d there) e ((raised.reads d).symm ▸ member)
    · rw [depth inside', still reader lower]
      exact raised.reached
  · intro e there first
    rw [size] at there ⊢
    rw [depth there]
    -- the reader that an unraised dispatch had, the new one, or the one it was raised below
    have old : (y.entry e).depth = (c.entry e).depth → ∃ d < c.entries.size,
        e ∈ (z.entry d).reads ∧ (y.entry e).depth ≤ (z.entry d).depth + 1 := by
      intro same
      obtain ⟨d, there', member, le⟩ := h.upper e there first
      refine ⟨d, there', (read there').2 (.inl member), ?_⟩
      have := raised.mono d
      rw [depth there']
      omega
    rcases raised.upper e there with same | rfl | ⟨p, there', member, le⟩
    · exact old same
    · rcases raised.exact with same | reached
      · exact old same
      · refine ⟨reader, inside, (read inside).2 (.inr ⟨rfl, rfl⟩), ?_⟩
        have kept : (z.entry reader).depth = (c.entry reader).depth :=
          (depth inside).trans (still reader lower)
        exact le_of_eq (by rw [reached, kept])
    · exact ⟨p, there', (read there').2 (.inl member), by rw [depth there']; exact le⟩
  · rw [depth (positive.trans inside'), still 0 last, h.main]

theorem entry_cacheOpened_of_lt (n : Node) (reader : DispatchId) (reduction : Int)
    (inside : d < c.entries.size) :
    (c.cacheOpened n reader reduction).entry d = { c.entry d with
      reads := if reader = d then (c.entry d).reads ++ [c.entries.size]
        else (c.entry d).reads } := by
  have pushed := entry_push c ⟨c.cacheName, (c.entry reader).depth + 1, .two, reduction, [],
    c.scopes.size, []⟩ d
  rw [if_neg (inside.ne)] at pushed
  refine (entry_addRead { c with entries := c.entries.push _ } reader c.entries.size
    (by rw [Array.size_push]; exact Nat.lt_succ_of_lt inside)).trans ?_
  rw [pushed]

theorem Deep.cacheOpened (h : Deep key c) (n : Node) (reduction : Int)
    (inside : reader < c.entries.size) (lower : key c.entries.size < key reader) :
    Deep key (c.cacheOpened n reader reduction) := by
  have size : (c.cacheOpened n reader reduction).entries.size = c.entries.size + 1 := by
    simp [Context.cacheOpened]
  have new := entry_cacheOpened n reduction inside
  have old {d : DispatchId} (there : d < c.entries.size) :=
    entry_cacheOpened_of_lt n reader reduction there
  have read {d e : DispatchId} (there : d < c.entries.size) :
      e ∈ ((c.cacheOpened n reader reduction).entry d).reads ↔
        e ∈ (c.entry d).reads ∨ reader = d ∧ e = c.entries.size := by
    rw [old there]
    exact mem_ite_append
  have depth {d : DispatchId} (there : d < c.entries.size) :
      ((c.cacheOpened n reader reduction).entry d).depth = (c.entry d).depth := by
    rw [old there]
  have cases {d : Nat} (there : d < c.entries.size + 1) :
      d < c.entries.size ∨ d = c.entries.size := by
    omega
  have wider {d : Nat} (there : d < c.entries.size) : d < c.entries.size + 1 :=
    Nat.lt_succ_of_lt there
  refine ⟨?_, ?_, ?_, ?_⟩
  · intro d there e member
    rw [size] at there ⊢
    rcases cases there with there | rfl
    · rcases (read there).1 member with member | ⟨rfl, rfl⟩
      · obtain ⟨positive, there', falls⟩ := h.ranked d there e member
        exact ⟨positive, wider there', falls⟩
      · exact ⟨Nat.zero_lt_of_lt inside, lt_add_one _, lower⟩
    · rw [new] at member
      cases member
  · intro d there e member
    rw [size] at there
    rcases cases there with there | rfl
    · rw [depth there]
      rcases (read there).1 member with member | ⟨rfl, rfl⟩
      · rw [depth (h.ranked d there e member).2.1]
        exact h.lower d there e member
      · exact le_of_eq (by rw [new])
    · rw [new] at member
      cases member
  · intro e there positive
    rw [size] at there ⊢
    rcases cases there with there | rfl
    · obtain ⟨d, there', member, le⟩ := h.upper e there positive
      exact ⟨d, wider there', (read there').2 (.inl member), by
        rw [depth there, depth there']; exact le⟩
    · refine ⟨reader, wider inside, (read inside).2 (.inr ⟨rfl, rfl⟩), ?_⟩
      exact le_of_eq (by rw [new, depth inside])
  · rw [depth (Nat.zero_lt_of_lt inside), h.main]

end

end Terrain.Compile
