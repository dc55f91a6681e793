import Terrain.Proofs.Placement
import Terrain.Proofs.Resolution
import Terrain.Proofs.Stores
import Terrain.Service.Handler

/-!
# Sessions with the compile service

A service that was started with nothing stored answers requests one after another.  What it lists
and fetches are the programs that it compiled so far, the latest one of each digest.  A compilation
that fails stores nothing; but documents are built on one graph, so it may leave nodes behind, and a
later refusal may name another number of a node.  Nothing else of it shows.

* `Document.compile_anywhere`    a document compiles alike on every graph, the numbers in refusals
                                 apart;
* `Request`, `Reply`, `Server.answer`    what is asked, and what comes back;
* `Answers`                      what should come back after some programs were compiled;
* `Server.Keeps`                 a server that has compiled some programs;
* `Server.Similar`               servers that only the nodes of their graphs tell apart;
* `Server.session_answers`       every reply of a session is right, and failures leave no trace.
-/

namespace Terrain

open List

/-! ## documents on two graphs -/

/-- without the number of the node that is refused for its shape -/
def DocumentError.unnumbered : DocumentError → DocumentError
  | .compile (.refused (.shape _ kind fault)) => .compile (.refused (.shape 0 kind fault))
  | e => e

theorem CompileError.document_unnumbered {e : CompileError}
    (h : (∃ fault, e = .structural none fault) ∨ e.SparesGraph) :
    (DocumentError.compile (.refused e)).unnumbered = .compile (.refused e.unnumbered) := by
  rcases h with ⟨fault, rfl⟩ | spares
  · rfl
  · cases e with
    | shape id kind fault => rfl
    | configuration name fault => rfl
    | structural node fault | alreadyUsed | notParsed | openScopes count =>
      rcases spares with h | h <;> cases h

namespace Document

/-- errors that are the same, the number of a refused node apart -/
def SameError (e e' : DocumentError) : Prop := e.unnumbered = e'.unnumbered

theorem sameProgram_trans {x y z : Except DocumentError Program} (first : SameProgram SameError x y)
    (second : SameProgram SameError x z) : SameProgram SameError y z := by
  cases x <;> cases y <;> cases z <;>
    first
      | exact first.elim
      | exact second.elim
      | exact Eq.trans (Eq.symm first) second

section
variable {doc : Document} {g : Graph} {o : Compile.Options}

theorem compile_unrooted {e : DocumentError} (rooted : (doc.roots g).1 = .error e) :
    (doc.compile g o).1 = .error e := by
  show ((doc.roots g).1 >>= fun roots => _) = _
  rw [rooted]
  rfl

theorem compile_unvalued {roots : List Root} {e : DocumentError}
    (rooted : (doc.roots g).1 = .ok roots) (valued : doc.values = .error e) :
    (doc.compile g o).1 = .error e := by
  show ((doc.roots g).1 >>= fun roots => doc.values >>= fun values => _) = _
  rw [rooted, valued]
  rfl

theorem compile_initial (doc : Document) (built : g.Built) (o : Compile.Options) :
    SameProgram SameError (doc.compile .initial o).1 (doc.compile g o).1 := by
  cases valued : doc.values with
  | error e =>
    rcases @compile_moved doc g built o o (fun _ => rfl) rfl (fun _ _ _ _ => rfl) with
      ⟨e', left, right⟩ | ⟨roots, roots', left, right, -⟩
    · rw [compile_unrooted left, compile_unrooted right]
      exact rfl
    · rw [compile_unvalued left valued, compile_unvalued right valued]
      exact rfl
  | ok values =>
    rcases @compile_moved doc g built { o with bindings := o.bindings ++ values }
        { o with bindings := o.bindings ++ values } (fun _ => rfl) rfl (fun _ _ _ _ => rfl) with
      ⟨e', left, right⟩ | ⟨roots, roots', left, right, same⟩
    · rw [compile_unrooted left, compile_unrooted right]
      exact rfl
    · rw [compile_eq left valued, compile_eq right valued]
      have unplaced (f : Failure) := roots_unplaced
        (o := { o with bindings := o.bindings ++ values }) (f := f) .initial left
      have unplaced' (f : Failure) := roots_unplaced
        (o := { o with bindings := o.bindings ++ values }) (f := f) built right
      generalize (doc.roots .initial).2.compile roots _ = x at same unplaced
      generalize (doc.roots g).2.compile roots' _ = y at same unplaced'
      rcases x with e | p <;> rcases y with e' | q
      · obtain ⟨e, rfl, spares⟩ := unplaced e rfl
        obtain ⟨e', rfl, spares'⟩ := unplaced' e' rfl
        have alike : e.unnumbered = e'.unnumbered := Failure.refused.inj (same.2 trivial)
        show (DocumentError.compile (.refused e)).unnumbered =
          (DocumentError.compile (.refused e')).unnumbered
        rw [e.document_unnumbered spares, e'.document_unnumbered spares', alike]
      · exact same.elim
      · exact same.elim
      · exact same

/-- a document compiles to one program on every graph, or fails on every graph for one reason; only
the number of a node that is refused tells the graphs apart -/
theorem compile_anywhere (doc : Document) {h : Graph} (built : g.Built) (built' : h.Built)
    (o : Compile.Options) : SameProgram SameError (doc.compile g o).1 (doc.compile h o).1 :=
  sameProgram_trans (doc.compile_initial built o) (doc.compile_initial built' o)

end

end Document

/-! ## requests and replies -/

namespace Service

open Hash (Digest)

inductive Request where
  | compile (q : CompileRequest)
  | fetch (hash : String)
  | list

inductive Reply where
  | compiled (r : Except ServiceError CompileResponse)
  | fetched (r : Except ServiceError Program)
  | listed (hashes : List String)

def ServiceError.unnumbered : ServiceError → ServiceError
  | .work (.job e) => .work (.job e.unnumbered)
  | e => e

namespace Reply

/-- without the number of a node that is refused for its shape -/
def unnumbered : Reply → Reply
  | compiled (.error e) => compiled (.error e.unnumbered)
  | reply => reply

def program? : Reply → Option Program
  | compiled (.ok r) => some r.artifact
  | _ => none

end Reply

namespace Server

/-- the reply to a request, and the server after it -/
def answer (s : Server) : Request → Reply × Server
  | .compile q => (.compiled (s.compile q).1, (s.compile q).2)
  | .fetch hash => (.fetched (s.fetch hash), s)
  | .list => (.listed (s.list.map Digest.text), s)

def replies (s : Server) : List Request → List Reply
  | [] => []
  | q :: later => (s.answer q).1 :: (s.answer q).2.replies later

def after (s : Server) (requests : List Request) : Server :=
  requests.foldl (fun s q => (s.answer q).2) s

def programs (s : Server) (requests : List Request) : List Program :=
  (s.replies requests).filterMap Reply.program?

end Server

/-! ## what should come back -/

/-- the program with a digest that was compiled last -/
def lastCompiled (programs : List Program) (hash : String) : Option Program :=
  programs.reverse.find? fun p => p.digest.text == hash

/-- a request for a program that can be stored, whatever was asked before -/
def CompileRequest.Gives (q : CompileRequest) (p : Program) : Prop :=
  q.document.isEmpty = false ∧ ∃ doc, Document.parse q.document = .ok doc ∧
    (doc.compile .initial q.options).1 = .ok p ∧ (Artifact.ofProgram p).check = .ok ()

/-- a text that names a digest fetches the program that was compiled last, if there is one -/
structure Fetches (programs : List Program) (hash : String) (r : Except ServiceError Program) :
    Prop where
  found : ∀ p, r = .ok p ↔ Digest.IsText hash ∧ lastCompiled programs hash.toLower = some p
  missing : (∃ e, r = .error e ∧ e.code = .notFound) ↔
    Digest.IsText hash ∧ lastCompiled programs hash.toLower = none
  malformed : (∃ e, r = .error e ∧ e.code = .invalidArgument) ↔ ¬ Digest.IsText hash

def Answers (programs : List Program) (hashes : List String) : Request → Reply → Prop
  | .compile q, .compiled r => (∀ p, (∃ known, r = .ok ⟨p, known⟩) ↔ q.Gives p) ∧
      ∀ p known, r = .ok ⟨p, known⟩ → (known = true ↔ p.digest.text ∈ hashes)
  | .fetch hash, .fetched r => Fetches programs hash r
  | .list, .listed listed => listed = hashes
  | _, _ => False

/-! ## compiling -/

def jobError : DocumentError → WorkError DocumentError
  | .compile (.fault f) => .crashed f.message
  | e => .job e

theorem unnumbered_jobError (e : DocumentError) :
    (ServiceError.work (jobError e)).unnumbered = .work (jobError e.unnumbered) := by
  cases e with
  | compile failure =>
    cases failure with
    | fault f => rfl
    | refused e => cases e <;> rfl
  | _ => rfl

namespace Server

section
variable {s t : Server} {q : CompileRequest} {doc : Document} {p : Program}
  {programs : List Program}

def onGraph (s : Server) (g : Graph) : Server := { s with graph := g }

/-- a document that was compiled is stored, or its error is reported -/
def settle (s : Server) :
    Except DocumentError Program → Except ServiceError CompileResponse × Server
  | .ok p => s.keep p
  | .error e => (.error (.work (jobError e)), s)

theorem compile_read (running : s.worker.stopped = false) (text : q.document.isEmpty = false)
    (parsed : Document.parse q.document = .ok doc) :
    s.compile q = (s.onGraph (doc.compile s.graph q.options).2).settle
      (doc.compile s.graph q.options).1 := by
  unfold compile Worker.perform compileJob
  rw [if_neg (by simp [text]), parsed, running]
  dsimp only
  generalize doc.compile s.graph q.options = x
  obtain ⟨r, g⟩ := x
  cases r with
  | ok p => rfl
  | error e =>
    cases e with
    | compile failure => cases failure <;> rfl
    | _ => rfl

theorem compile_unread
    (h : ∀ doc, ¬ (q.document.isEmpty = false ∧ Document.parse q.document = .ok doc)) :
    ∃ e, ∀ s : Server, s.compile q = (.error e, s) := by
  unfold compile
  cases empty : q.document.isEmpty with
  | true => exact ⟨.noDocument, fun s => rfl⟩
  | false =>
    cases parsed : Document.parse q.document with
    | error e => exact ⟨.document e, fun s => rfl⟩
    | ok doc => exact absurd ⟨empty, parsed⟩ (h doc)

theorem keep_checked (checked : (Artifact.ofProgram p).check = .ok ()) :
    s.keep p = (.ok ⟨p, s.store.has p.digest⟩,
      { s with store := ⟨insertSorted Digest.le p.digest (.ofProgram p) s.store.rows⟩ }) := by
  unfold keep MemoryStore.put
  dsimp only
  rw [checked]
  rfl

theorem keep_refused {e : ArtifactError} (checked : (Artifact.ofProgram p).check = .error e) :
    s.keep p = (.error (.store e), s) := by
  unfold keep MemoryStore.put
  dsimp only
  rw [checked]
  rfl

/-! ## what a server keeps -/

/-- a running server that holds the latest of the programs that were compiled -/
structure Keeps (programs : List Program) (s : Server) : Prop where
  running : s.worker.stopped = false
  built : s.graph.Built
  holds : s.store.Holds fun d => (lastCompiled programs d.text).map .ofProgram

theorem keeps_start (limit : Nat) : (start limit).Keeps [] :=
  ⟨rfl, .initial, MemoryStore.holds_empty⟩

theorem lastCompiled_append (programs : List Program) (p : Program) (hash : String) :
    lastCompiled (programs ++ [p]) hash =
      if p.digest.text = hash then some p else lastCompiled programs hash := by
  unfold lastCompiled
  rw [reverse_append, reverse_singleton, singleton_append, find?_cons]
  by_cases same : p.digest.text = hash
  · rw [if_pos same, beq_iff_eq.2 same]
  · rw [if_neg same, beq_false_of_ne same]

theorem isSome_lastCompiled (programs : List Program) (hash : String) :
    (lastCompiled programs hash).isSome = true ↔ ∃ p ∈ programs, p.digest.text = hash := by
  unfold lastCompiled
  simp

section
variable (k : s.Keeps programs)
include k

theorem Keeps.onGraph {g : Graph} (built : g.Built) : (s.onGraph g).Keeps programs :=
  ⟨k.running, built, k.holds⟩

theorem Keeps.keep (checked : (Artifact.ofProgram p).check = .ok ()) :
    (s.keep p).2.Keeps (programs ++ [p]) := by
  rw [keep_checked checked]
  refine ⟨k.running, k.built, ?_⟩
  have held := k.holds.put (.ofProgram p) checked
  refine ⟨held.ascending, fun d => (held.lookup d).trans ?_⟩
  show (if (Artifact.ofProgram p).check.isOk ∧ p.digest = d then
    some (Artifact.ofProgram p) else _) = _
  rw [lastCompiled_append, checked]
  by_cases same : p.digest = d
  · rw [if_pos ⟨rfl, same⟩, if_pos (congrArg Digest.text same)]
    rfl
  · rw [if_neg fun h => same h.2, if_neg fun h => same (Digest.text_inj h)]

theorem Keeps.compile_cases (q : CompileRequest) :
    (∃ e, (s.compile q).1 = .error e ∧ (s.compile q).2.Keeps programs ∧
      (s.compile q).2.store = s.store ∧ ∀ p, ¬ q.Gives p) ∨
    ∃ p, (s.compile q).1 = .ok ⟨p, s.store.has p.digest⟩ ∧ (s.compile q).2.Keeps (programs ++ [p]) ∧
      q.Gives p := by
  by_cases read : ∃ doc, q.document.isEmpty = false ∧ Document.parse q.document = .ok doc
  · obtain ⟨doc, text, parsed⟩ := read
    have grown : (doc.compile s.graph q.options).2.Built := doc.built_roots k.built
    have fresh := doc.compile_initial k.built q.options
    have unique {p : Program} (given : q.Gives p) : (doc.compile .initial q.options).1 = .ok p ∧
        (Artifact.ofProgram p).check = .ok () := by
      obtain ⟨-, doc', parsed', made⟩ := given
      cases parsed.symm.trans parsed'
      exact made
    rw [compile_read k.running text parsed]
    have kept := k.onGraph grown
    cases made : (doc.compile s.graph q.options).1 with
    | error e =>
      refine .inl ⟨_, rfl, kept, rfl, fun p given => ?_⟩
      rw [(unique given).1, made] at fresh
      exact fresh
    | ok p =>
      have first : (doc.compile .initial q.options).1 = .ok p := by
        rw [made] at fresh
        generalize (doc.compile .initial q.options).1 = x at fresh
        cases x with
        | error e => exact fresh.elim
        | ok p' => exact congrArg Except.ok fresh
      cases checked : (Artifact.ofProgram p).check with
      | error e =>
        refine .inl ⟨.store e, ?_, ?_, ?_, fun p' given => ?_⟩
        · exact congrArg Prod.fst (keep_refused checked)
        · show ((s.onGraph _).keep p).2.Keeps programs
          rw [keep_refused checked]
          exact kept
        · show ((s.onGraph _).keep p).2.store = _
          rw [keep_refused checked]
          rfl
        · obtain ⟨made', checked'⟩ := unique given
          cases first.symm.trans made'
          cases checked.symm.trans checked'
      | ok u =>
        refine .inr ⟨p, ?_, kept.keep checked, text, doc, parsed, first, checked⟩
        exact congrArg Prod.fst (keep_checked checked)
  · obtain ⟨e, unread⟩ := compile_unread fun doc h => read ⟨doc, h⟩
    rw [unread s]
    exact .inl ⟨e, rfl, k, rfl, fun p ⟨text, doc, parsed, _⟩ => read ⟨doc, text, parsed⟩⟩

/-- **A step.**  A reply with a program adds it to what the server keeps. -/
theorem Keeps.answer (q : Request) :
    (s.answer q).2.Keeps (programs ++ (s.answer q).1.program?.toList) := by
  have same (u : List Program) : u ++ (none : Option Program).toList = u := append_nil u
  cases q with
  | compile q =>
    show (s.compile q).2.Keeps (programs ++ (Reply.compiled (s.compile q).1).program?.toList)
    rcases k.compile_cases q with ⟨e, failed, kept, -, -⟩ | ⟨p, made, kept, -⟩
    · rw [failed]
      exact (same programs).symm ▸ kept
    · rw [made]
      exact kept
  | fetch hash | list => exact (same programs).symm ▸ k

/-- **A run.**  After requests a server keeps the programs that it replied with. -/
theorem Keeps.after (requests : List Request) :
    (s.after requests).Keeps (programs ++ s.programs requests) := by
  induction requests generalizing s programs with
  | nil => exact (append_nil programs).symm ▸ k
  | cons q later ih =>
    have rest := ih (k.answer q)
    have listed : s.programs (q :: later) =
        (s.answer q).1.program?.toList ++ (s.answer q).2.programs later := by
      show ((s.answer q).1 :: (s.answer q).2.replies later).filterMap Reply.program? = _
      rw [filterMap_cons]
      cases (s.answer q).1.program? <;> rfl
    rw [listed, ← append_assoc]
    exact rest

/-! ## replies -/

theorem Keeps.ascending : (s.list.map Digest.text).Pairwise (· < ·) := by
  show ((s.store.rows.map Prod.fst).map Digest.text).Pairwise (· < ·)
  rw [pairwise_map, pairwise_map]
  exact k.holds.ascending.imp fun {a b} less => (Digest.text_lt_iff _ _).2 less

theorem Keeps.mem_list (hash : String) :
    hash ∈ s.list.map Digest.text ↔ ∃ p ∈ programs, p.digest.text = hash := by
  have digests (d : Digest) : d ∈ s.list ↔ ∃ p ∈ programs, p.digest.text = d.text := by
    rw [← isSome_lastCompiled, ← Option.isSome_map]
    exact k.holds.mem_digests d
  constructor
  · intro member
    obtain ⟨d, there, rfl⟩ := mem_map.1 member
    exact (digests d).1 there
  · rintro ⟨p, there, rfl⟩
    exact mem_map_of_mem ((digests p.digest).2 ⟨p, there, rfl⟩)

theorem Keeps.has_iff (d : Digest) : s.store.has d = true ↔ d.text ∈ s.list.map Digest.text := by
  rw [k.mem_list, ← isSome_lastCompiled]
  unfold MemoryStore.has
  rw [k.holds.lookup, Option.isSome_map]

theorem Keeps.fetch_parsed {hash : String} {d : Digest} (parsed : Digest.parse hash = .ok d) :
    s.fetch hash = (lastCompiled programs hash.toLower).elim (.error (.notFound d)) .ok := by
  have looked := k.holds.lookup d
  rw [(Digest.isText_of_parse parsed).2] at looked
  unfold fetch
  rw [parsed]
  dsimp only
  unfold MemoryStore.get
  rw [looked]
  cases lastCompiled programs hash.toLower <;> rfl

theorem Keeps.fetches (hash : String) : Fetches programs hash (s.fetch hash) := by
  cases parsed : Digest.parse hash with
  | error reason =>
    have malformed : ¬ Digest.IsText hash := fun text => by
      obtain ⟨d, ok⟩ := Digest.parse_of_isText text
      cases parsed.symm.trans ok
    have refused : s.fetch hash = .error (.badDigest hash reason) := by
      unfold fetch
      rw [parsed]
    rw [refused]
    refine ⟨fun p => ⟨nofun, fun h => absurd h.1 malformed⟩, ⟨?_, fun h => absurd h.1 malformed⟩,
      fun _ => malformed, fun _ => ⟨.badDigest hash reason, rfl, rfl⟩⟩
    rintro ⟨e, failed, code⟩
    cases failed
    cases code
  | ok d =>
    have text := (Digest.isText_of_parse parsed).1
    rw [k.fetch_parsed parsed]
    cases last : lastCompiled programs hash.toLower with
    | none =>
      dsimp only [Option.elim_none]
      refine ⟨fun p => ⟨nofun, fun h => ?_⟩,
        ⟨fun _ => ⟨text, last⟩, fun _ => ⟨.notFound d, rfl, rfl⟩⟩, ?_, fun h => absurd text h⟩
      · cases last.symm.trans h.2
      · rintro ⟨e, failed, code⟩
        cases failed
        cases code
    | some p =>
      have never {code : Code} :
          ¬ ∃ e : ServiceError, (Except.ok p : Except ServiceError Program) = .error e ∧
          e.code = code := by
        rintro ⟨e, failed, -⟩
        cases failed
      dsimp only [Option.elim_some]
      refine ⟨fun p' => ⟨fun h => ⟨text, ?_⟩, fun h => ?_⟩, ⟨fun h => absurd h never, fun h => ?_⟩,
        fun h => absurd h never, fun h => absurd text h⟩
      · cases h
        exact last
      · cases last.symm.trans h.2
        rfl
      · cases last.symm.trans h.2

theorem Keeps.answers (q : Request) :
    Answers programs (s.list.map Digest.text) q (s.answer q).1 := by
  cases q with
  | fetch hash => exact k.fetches hash
  | list => exact rfl
  | compile q =>
    rcases k.compile_cases q with ⟨e, failed, -, -, never⟩ | ⟨p, made, -, given⟩
    · show Answers _ _ _ (.compiled (s.compile q).1)
      rw [failed]
      exact ⟨fun p => ⟨nofun, fun h => absurd h (never p)⟩, nofun⟩
    · show Answers _ _ _ (.compiled (s.compile q).1)
      rw [made]
      refine ⟨fun p' => ⟨?_, ?_⟩, ?_⟩
      · rintro ⟨known, eq⟩
        cases eq
        exact given
      · intro given'
        obtain ⟨-, doc, parsed, first, -⟩ := given
        obtain ⟨-, doc', parsed', first', -⟩ := given'
        cases parsed.symm.trans parsed'
        cases first.symm.trans first'
        exact ⟨_, rfl⟩
      · rintro p' known eq
        cases eq
        exact k.has_iff p.digest

end

/-! ## failures -/

/-- running servers that only the nodes of their graphs tell apart -/
structure Similar (s t : Server) : Prop where
  running : s.worker.stopped = false ∧ t.worker.stopped = false
  built : s.graph.Built ∧ t.graph.Built
  store : s.store = t.store

theorem Similar.keep (h : Similar s t) (p : Program) :
    (s.keep p).1 = (t.keep p).1 ∧ Similar (s.keep p).2 (t.keep p).2 := by
  cases checked : (Artifact.ofProgram p).check with
  | error e =>
    rw [keep_refused checked, keep_refused checked]
    exact ⟨rfl, h⟩
  | ok u =>
    rw [keep_checked checked, keep_checked checked, h.store]
    exact ⟨rfl, h.running, h.built, rfl⟩

theorem Similar.compile (h : Similar s t) (q : CompileRequest) :
    (Reply.compiled (s.compile q).1).unnumbered = (Reply.compiled (t.compile q).1).unnumbered ∧
      Similar (s.compile q).2 (t.compile q).2 := by
  by_cases read : ∃ doc, q.document.isEmpty = false ∧ Document.parse q.document = .ok doc
  · obtain ⟨doc, text, parsed⟩ := read
    rw [compile_read h.running.1 text parsed, compile_read h.running.2 text parsed]
    have same := doc.compile_anywhere h.built.1 h.built.2 q.options
    have moved : Similar (s.onGraph (doc.compile s.graph q.options).2)
        (t.onGraph (doc.compile t.graph q.options).2) :=
      ⟨h.running, ⟨doc.built_roots h.built.1, doc.built_roots h.built.2⟩, h.store⟩
    generalize (doc.compile s.graph q.options).1 = x at same
    generalize (doc.compile t.graph q.options).1 = y at same
    rcases x with e | p <;> rcases y with e' | p'
    · refine ⟨?_, moved⟩
      have alike : e.unnumbered = e'.unnumbered := same
      show Reply.compiled (.error (ServiceError.work (jobError e)).unnumbered) =
        .compiled (.error (ServiceError.work (jobError e')).unnumbered)
      rw [unnumbered_jobError, unnumbered_jobError, alike]
    · exact same.elim
    · exact same.elim
    · obtain rfl : p = p' := same
      obtain ⟨reply, after⟩ := moved.keep p
      exact ⟨congrArg (fun r => (Reply.compiled r).unnumbered) reply, after⟩
  · obtain ⟨e, unread⟩ := compile_unread fun doc h => read ⟨doc, h⟩
    rw [unread s, unread t]
    exact ⟨rfl, h⟩

theorem Similar.answer (h : Similar s t) (q : Request) :
    (s.answer q).1.unnumbered = (t.answer q).1.unnumbered ∧
      Similar (s.answer q).2 (t.answer q).2 := by
  cases q with
  | compile q => exact h.compile q
  | fetch hash =>
    refine ⟨?_, h⟩
    show (Reply.fetched (s.fetch hash)).unnumbered = (Reply.fetched (t.fetch hash)).unnumbered
    unfold fetch
    rw [h.store]
  | list =>
    refine ⟨?_, h⟩
    show (Reply.listed (s.store.digests.map Digest.text)).unnumbered =
      (Reply.listed (t.store.digests.map Digest.text)).unnumbered
    rw [h.store]

theorem Similar.replies (h : Similar s t) (later : List Request) :
    (s.replies later).map Reply.unnumbered = (t.replies later).map Reply.unnumbered := by
  induction later generalizing s t with
  | nil => rfl
  | cons q later ih =>
    obtain ⟨reply, after⟩ := h.answer q
    unfold Server.replies
    rw [map_cons, map_cons, reply, ih after]

theorem Keeps.similar_of_failed (k : s.Keeps programs) {q : Request} {e : ServiceError}
    (failed : (s.answer q).1 = .compiled (.error e)) : Similar (s.answer q).2 s := by
  cases q with
  | fetch hash | list => cases failed
  | compile q =>
    rcases k.compile_cases q with ⟨e', -, kept, store, -⟩ | ⟨p, made, -, -⟩
    · exact ⟨⟨kept.running, k.running⟩, ⟨kept.built, k.built⟩, store⟩
    · have reply : Reply.compiled (s.compile q).1 = .compiled (.error e) := failed
      rw [made] at reply
      cases reply

end

/-- **Sessions.**  After any requests, the digests of the programs that were compiled are listed in
ascending order and once each; a request is compiled alike whatever was asked before, and its
program is known if and only if its digest is listed; a text that names a digest fetches the program
that was compiled last, or there is none.  A compilation that fails changes nothing in the replies
to later requests but the numbers of nodes that are refused. -/
theorem session_answers (limit : Nat) (before : List Request) (q : Request) :
    (∃ hashes, hashes.Pairwise (· < ·) ∧
      (∀ hash, hash ∈ hashes ↔ ∃ p ∈ (start limit).programs before, p.digest.text = hash) ∧
      Answers ((start limit).programs before) hashes q (((start limit).after before).answer q).1) ∧
    ∀ e, (((start limit).after before).answer q).1 = .compiled (.error e) → ∀ later,
      ((((start limit).after before).answer q).2.replies later).map Reply.unnumbered =
        (((start limit).after before).replies later).map Reply.unnumbered := by
  have k : ((start limit).after before).Keeps ((start limit).programs before) :=
    (keeps_start limit).after before
  exact ⟨⟨_, k.ascending, k.mem_list, k.answers q⟩, fun e failed later =>
    (k.similar_of_failed failed).replies later⟩

/-- the text of a compilation that failed -/
def errorText : Reply → Option String
  | .compiled (.error e) => some e.text
  | _ => none

/-- a request with the options that are used where nothing else is given -/
def plainRequest (document : String) : Request := .compile ⟨document, [], none, 0⟩

def wholeRequest : Request :=
  plainRequest ("nodes: \x7bd: \x7bop: swizzle, in: [position], mask: y\x7d\x7d\n" ++
    "outputs: \x7bdensity: d, color: position\x7d\n")

/-- a request without an output that is required -/
def partRequest : Request :=
  plainRequest ("nodes: \x7bd: \x7bop: swizzle, in: [position], mask: y\x7d\x7d\n" ++
    "outputs: \x7bdensity: d\x7d\n")

/-- a request for the inner product of two numbers -/
def numbersRequest : Request :=
  plainRequest ("nodes: \x7bd: \x7bop: dot, in: [1, 2]\x7d\x7d\n" ++
    "outputs: \x7bdensity: d, color: position\x7d\n")

theorem failed_of_errorText {r : Reply} {text : String} (h : errorText r = some text) :
    ∃ e, r = .compiled (.error e) := by
  unfold errorText at h
  split at h
  · exact ⟨_, rfl⟩
  · cases h

/-- a program was compiled, another request fails, and what comes later is answered as
if it had not -/
theorem session_answers_part :
    ((start 0).programs [wholeRequest]).length = 1 ∧
      errorText (((start 0).after [wholeRequest]).answer partRequest).1 =
        some "invalid_argument: graph structure: missing required output \"color\"" ∧
      ∀ later, ((((start 0).after [wholeRequest]).answer partRequest).2.replies later).map
        Reply.unnumbered =
        (((start 0).after [wholeRequest]).replies later).map Reply.unnumbered := by
  have evaluated : ((start 0).programs [wholeRequest]).length = 1 ∧
      errorText (((start 0).after [wholeRequest]).answer partRequest).1 =
        some "invalid_argument: graph structure: missing required output \"color\"" := by
          decide +kernel
  obtain ⟨e, failed⟩ := failed_of_errorText evaluated.2
  exact ⟨evaluated.1, evaluated.2, (session_answers 0 [wholeRequest] partRequest).2 e failed⟩

/-- **A failure may show.**  The node that is refused has another number after a request
that failed. -/
theorem failure_moves_numbers :
    ((start 0).replies [partRequest, numbersRequest]).map errorText =
      [some "invalid_argument: graph structure: missing required output \"color\"",
        some ("invalid_argument: type shape: node #5 (dot): " ++
          "dot needs two vectors of equal width, got float and float")] ∧
    ((start 0).replies [numbersRequest]).map errorText =
      [some ("invalid_argument: type shape: node #4 (dot): " ++
        "dot needs two vectors of equal width, got float and float")] := by
  decide +kernel

end Server
end Service
end Terrain
