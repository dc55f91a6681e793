import Terrain.Command.Run
import Terrain.Proofs.Manifests
import Terrain.Proofs.Outputs
import Terrain.Proofs.Requests

/-!
# Compiling here and elsewhere

A command compiles a document here, or sends it with the options of the manifest to a service that
compiles it there.  The two differ in how they merge values, in the graph that the document is built
on, and in that the options go through bytes.

* `Done`                    a command succeeds on files, and what it leaves;
* `compileLocal_ok`         what compiling here comes to;
* `compileRemote_ok`        what compiling elsewhere comes to;
* `compileRemote_iff`       it gives the program that compiling here gives, as long as what the
                            manifest asks for arrives;
* `compileRemote_part`      an empty list of required outputs does not.
-/

namespace Terrain

open List

variable {ε : Type} {g : Graph} {doc : Document} {r : CompileRequest}

namespace Command

open Service Compile

theorem lookup_mergedValues (manifest document : Bindings) (name : String) :
    (mergedValues manifest document).lookup name = (manifest ++ document).lookup name := by
  have rest : (document.filter fun p => (manifest.lookup p.1).isNone).lookup name =
      if (manifest.lookup name).isNone then document.lookup name else none :=
    lookup_filter_key (fun key => (manifest.lookup key).isNone) document name
  show (manifest ++ document.filter fun p => (manifest.lookup p.1).isNone).lookup name = _
  rw [lookup_append, lookup_append, rest]
  cases manifest.lookup name <;> rfl

/-! ## commands on files -/

section
variable {α β : Type} {s s' : Shell} {t t' : FileTree}

def Done (c : CommandM (StateM FileTree) α) (s : Shell) (t : FileTree) (a : α) (s' : Shell)
    (t' : FileTree) : Prop := (c.run.run s).run t = ((.ok a, s'), t')

def result (c : CommandM (StateM FileTree) α) (s : Shell) (t : FileTree) : Except CommandError α :=
  ((c.run.run s).run t).1.1

theorem result_ok_iff {c : CommandM (StateM FileTree) α} {a : α} :
    result c s t = .ok a ↔ ∃ s' t', Done c s t a s' t' := by
  unfold result Done
  rcases (c.run.run s).run t with ⟨⟨r, s'⟩, t'⟩
  constructor
  · intro h
    exact ⟨s', t', by rw [show r = .ok a from h]⟩
  · rintro ⟨s'', t'', h⟩
    exact congrArg (·.1.1) h

theorem done_bind {c : CommandM (StateM FileTree) α} {f : α → CommandM (StateM FileTree) β}
    {b : β} : Done (c >>= f) s t b s' t' ↔ ∃ a u v, Done c s t a u v ∧ Done (f a) u v b s' t' := by
  unfold Done
  show ExceptT.bindCont f (c s t).1.1 (c s t).1.2 (c s t).2 = _ ↔
    ∃ a u v, c s t = ((.ok a, u), v) ∧ f a u v = ((.ok b, s'), t')
  rcases c s t with ⟨⟨r, u⟩, v⟩
  cases r with
  | error e =>
    constructor
    · intro h
      cases h
    · rintro ⟨a, u', v', h, -⟩
      cases h
  | ok a =>
    constructor
    · intro h
      exact ⟨a, u, v, rfl, h⟩
    · rintro ⟨a', u', v', h, h'⟩
      cases h
      exact h'

theorem done_pure {a b : α} : Done (pure a) s t b s' t' ↔ a = b ∧ s' = s ∧ t' = t := by
  constructor
  · intro h
    cases h
    exact ⟨rfl, rfl, rfl⟩
  · rintro ⟨rfl, rfl, rfl⟩
    rfl

theorem done_liftError {x : Except ε α} {error : ε → CommandError} {a : α} :
    Done (liftError x error) s t a s' t' ↔ x = .ok a ∧ s' = s ∧ t' = t := by
  cases x with
  | error e =>
    constructor
    · intro h
      cases h
    · rintro ⟨h, -⟩
      cases h
  | ok b =>
    rw [Except.ok.injEq]
    exact done_pure

theorem done_liftError_bind {x : Except ε α} {error : ε → CommandError}
    {f : α → CommandM (StateM FileTree) β} {b : β} :
    Done (liftError x error >>= f) s t b s' t' ↔ ∃ a, x = .ok a ∧ Done (f a) s t b s' t' := by
  simp only [done_bind, done_liftError]
  constructor
  · rintro ⟨a, _, _, ⟨same, rfl, rfl⟩, rest⟩
    exact ⟨a, same, rest⟩
  · rintro ⟨a, same, rest⟩
    exact ⟨a, s, t, ⟨same, rfl, rfl⟩, rest⟩

theorem done_read_bind {cwd path : String} {error : FileError → CommandError}
    {f : List UInt8 → CommandM (StateM FileTree) β} {b : β} :
    Done (attempt ((FileTree.access cwd).read path) error >>= f) s t b s' t' ↔
      ∃ bytes, t.read cwd path = .ok bytes ∧ Done (f bytes) s t b s' t' := by
  have read : Done (attempt ((FileTree.access cwd).read path) error >>= f) s t b s' t' ↔
      Done (liftError (t.read cwd path) error >>= f) s t b s' t' := Iff.rfl
  rw [read, done_liftError_bind]

/-- a text that is there, or an error -/
def textOr (e : CommandError) : Option String → CommandM (StateM FileTree) String
  | some text => pure text
  | none => throw e

theorem done_textOr_bind {text? : Option String} {e : CommandError}
    {f : String → CommandM (StateM FileTree) β} {b : β} :
    Done (textOr e text? >>= f) s t b s' t' ↔ ∃ text, text? = some text ∧
      Done (f text) s t b s' t' := by
  have lifted : textOr e text? = liftError (text?.elim (.error ()) .ok) fun _ => e := by
    cases text? <;> rfl
  rw [lifted, done_liftError_bind]
  cases text? <;> simp

theorem done_get_bind {f : Shell → CommandM (StateM FileTree) β} {b : β} :
    Done (get >>= f) s t b s' t' ↔ Done (f s) s t b s' t' := Iff.rfl

theorem done_modify_bind {g : Shell → Shell} {f : PUnit → CommandM (StateM FileTree) β} {b : β} :
    Done (modify g >>= f) s t b s' t' ↔ Done (f ⟨⟩) (g s) t b s' t' := Iff.rfl

end

/-! ## compiling here -/

/-- the text of a document at a path -/
def textAt (t : FileTree) (cwd path : String) : Option String :=
  (t.read cwd path).toOption.bind documentText

theorem textAt_iff {t : FileTree} {cwd path text : String} :
    textAt t cwd path = some text ↔
      ∃ bytes, t.read cwd path = .ok bytes ∧ documentText bytes = some text := by
  unfold textAt
  cases t.read cwd path with
  | error e | ok bytes => simp [Except.toOption]

theorem compileDocument_eq (doc : Document) (manifest : Manifest) (o : Options) (values : Bindings)
    (g : Graph) :
    (compileDocument doc manifest o values g).1 =
      Pipeline.Generator.compileBuilt { o with bindings := mergedValues o.bindings values }
        ⟨(doc.roots g).2, (doc.roots g).1.mapError .document⟩ := by
  unfold compileDocument
  rcases doc.roots g with ⟨roots, g'⟩
  dsimp only
  -- a new generator is open and has no program, so it takes every program as it is
  unfold Pipeline.Generator.rebuild
  rw [if_neg (by exact Bool.false_ne_true)]
  show Except.map _ (Prod.fst _) = _
  dsimp only [Pipeline.Generator.create]
  cases Pipeline.Generator.compileBuilt _ _ <;> rfl

theorem compileDocument_ok {manifest : Manifest} {o : Options} {values : Bindings} {p : Program} :
    (compileDocument doc manifest o values g).1 = .ok p ↔
      doc.Gives g { o with bindings := mergedValues o.bindings values } p := by
  rw [compileDocument_eq]
  unfold Pipeline.Generator.compileBuilt Document.Gives
  simp only [bind_eq_ok, mapError_eq_ok]

theorem compileLocal_eq (cwd path : String) (manifest : Manifest) :
    compileLocal (FileTree.access cwd) path manifest =
      (attempt ((FileTree.access cwd).read path) (.document path) >>= fun bytes =>
        textOr (.malformed path .malformed) (documentText bytes) >>= fun text =>
        liftError (Document.parse text) (.malformed path) >>= fun doc =>
        liftError manifest.options .parameter >>= fun o =>
        liftError doc.values .values >>= fun values => get >>= fun s =>
        modify (fun s' => { s' with
          graph := (compileDocument doc manifest o values s.graph).2 }) >>= fun _ =>
        liftError (compileDocument doc manifest o values s.graph).1 (.rebuild path)) := by
  unfold compileLocal
  refine congrArg _ (funext fun bytes => ?_)
  cases documentText bytes <;> rfl

theorem bind_pure_ok {α β : Type} {x : Except ε α} {f : α → β} {b : β} :
    (x >>= fun a => pure (f a)) = .ok b ↔ ∃ a, x = .ok a ∧ b = f a := by
  rw [bind_eq_ok]
  exact exists_congr fun a => and_congr_right fun _ => ⟨fun h => by cases h; rfl, fun h => h ▸ rfl⟩

theorem compileLocal_ok {cwd path : String} {manifest : Manifest} {s : Shell} {t : FileTree}
    {p : Program} : result (compileLocal (FileTree.access cwd) path manifest) s t = .ok p ↔
      ∃ text doc bound values, textAt t cwd path = some text ∧ Document.parse text = .ok doc ∧
        manifest.values = .ok bound ∧ doc.values = .ok values ∧
        doc.Gives s.graph ⟨mergedValues bound values, manifest.required, manifest.workgroup⟩ p := by
  have options (o : Options) : manifest.options = .ok o ↔
      ∃ bound, manifest.values = .ok bound ∧ o = ⟨bound, manifest.required, manifest.workgroup⟩ :=
    bind_pure_ok
  rw [result_ok_iff, compileLocal_eq]
  simp only [done_read_bind, done_textOr_bind, done_liftError_bind, done_get_bind, done_modify_bind,
    done_liftError, textAt_iff, compileDocument_ok, options]
  constructor
  · rintro ⟨_, _, bytes, read, text, written, doc, parsed, _, ⟨bound, valued, rfl⟩, values, valued',
      given, -, -⟩
    exact ⟨text, doc, bound, values, ⟨bytes, read, written⟩, parsed, valued, valued', given⟩
  · rintro ⟨text, doc, bound, values, ⟨bytes, read, written⟩, parsed, valued, valued', given⟩
    exact ⟨_, _, bytes, read, text, written, doc, parsed, _, ⟨bound, valued, rfl⟩, values, valued',
      given, rfl, rfl⟩

end Command

/-! ## compiling elsewhere -/

theorem Document.dispatches_of_compile (built : g.Built) {o : Compile.Options}
    {p : Program} (h : (doc.compile g o).1 = .ok p) : p.dispatches ≠ [] := by
  obtain ⟨values, -, roots, -, compiled⟩ := compile_ok_iff.1 h
  obtain ⟨c, parsed, rfl⟩ := Compile.compile_ok_iff.1 compiled
  obtain ⟨done, -, kept, -, perm⟩ :=
    Compile.linked_of_parsed (doc.built_roots built).wellFormed parsed
  intro empty
  have none : c.dispatches = [] := map_eq_nil_iff.1 empty
  have length := perm.length_eq
  rw [none, length_range] at length
  exact absurd kept.main.1 (by rw [← length]; exact lt_irrefl 0)

/-- a store takes every program that has a dispatch, unless its digest is zero -/
theorem MemoryStore.put_eq (s : MemoryStore) {p : Program} (full : p.dispatches ≠ []) :
    s.put (some (.ofProgram p)) = if p.digest.isZero then .error .zeroDigest
      else .ok ⟨insertSorted Hash.Digest.le p.digest (.ofProgram p) s.rows⟩ := by
  have full : p.dispatches.isEmpty = false := by
    cases eq : p.dispatches with
    | nil => exact absurd eq full
    | cons d ds => rfl
  show (if p.digest.isZero then Except.error ArtifactError.zeroDigest
    else if p.dispatches.isEmpty then .error (.noDispatches p.digest.short) else .ok ()).map _ = _
  rw [full]
  cases p.digest.isZero <;> rfl

namespace Service

theorem compileJob_done {doc : Document} {o : Compile.Options} {g : Graph} {p : Program} :
    (Server.compileJob doc o g).1 = .done p ↔ (doc.compile g o).1 = .ok p := by
  unfold Server.compileJob
  split
  · next q g' eq => simp [eq]
  · next f g' eq => simp [eq]
  · next e g' other eq => simp [eq]

theorem Worker.perform_ok {σ α : Type} {w : Worker} (running : w.stopped = false)
    {job : σ → Outcome ε α × σ} {shared : σ} {a : α} :
    (w.perform job shared).1 = .ok a ↔ (job shared).1 = .done a := by
  unfold perform
  rw [running, if_neg Bool.false_ne_true]
  rcases job shared with ⟨outcome, shared'⟩
  cases outcome <;> simp

theorem Server.keep_ok {s : Server} {p q : Program} {known : Bool} (full : p.dispatches ≠ []) :
    (s.keep p).1 = .ok ⟨q, known⟩ ↔ q = p ∧ known = s.store.has p.digest ∧
      p.digest.isZero = false := by
  unfold keep
  rw [MemoryStore.put_eq s.store full]
  cases p.digest.isZero with
  | true => simp
  | false => simp [eq_comm]

theorem parse_empty (doc : Document) : Document.parse "" ≠ .ok doc := by
  have fails : (Document.parse "").isOk = false := by decide
  intro h
  rw [h] at fails
  cases fails

theorem Server.compile_ok {s : Server} (running : s.worker.stopped = false) (built : s.graph.Built)
    {p : Program} :
    (∃ known, (s.compile r).1 = .ok ⟨p, known⟩) ↔ ∃ doc, Document.parse r.document = .ok doc ∧
      (doc.compile s.graph r.options).1 = .ok p ∧ p.digest.isZero = false := by
  unfold Server.compile
  by_cases empty : r.document.isEmpty = true
  · rw [if_pos empty]
    constructor
    · rintro ⟨known, h⟩
      cases h
    · rintro ⟨doc, h, -⟩
      rw [String.isEmpty_iff.1 empty] at h
      exact absurd h (parse_empty doc)
  rw [if_neg empty]
  cases parsed : Document.parse r.document with
  | error e => simp
  | ok doc =>
    dsimp only
    cases worked : s.worker.perform (compileJob doc r.options) s.graph with
    | mk result graph =>
      have job := fun q => (Worker.perform_ok running).trans
        (@compileJob_done doc r.options s.graph q)
      rw [worked] at job
      cases result with
      | error e =>
        constructor
        · rintro ⟨known, h⟩
          cases h
        · rintro ⟨doc', h, made, -⟩
          cases h
          cases (job p).2 made
      | ok q =>
        have made := (job q).1 rfl
        have full := Document.dispatches_of_compile built made
        show (∃ known, ({ s with graph }.keep q).1 = .ok ⟨p, known⟩) ↔ _
        constructor
        · rintro ⟨known, kept⟩
          obtain ⟨rfl, -, nonzero⟩ := (keep_ok full).1 kept
          exact ⟨doc, rfl, made, nonzero⟩
        · rintro ⟨doc', h, made', nonzero⟩
          cases h
          obtain rfl : q = p := Except.ok.inj (made.symm.trans made')
          exact ⟨_, (keep_ok full).2 ⟨rfl, rfl, nonzero⟩⟩

end Service

namespace Command

open Service Compile

def answer (s : Server) (r : CompileRequest) : Except String CompileResponse :=
  match CompileRequest.decode r.encode with
  | none => .error ServiceError.undecodable.text
  | some r => (s.compile r).1.mapError ServiceError.text

/-- a network with a service on it -/
def delivering (s : Server) : Network (StateM FileTree) where
  compile _ r := pure (answer s r)
  fetch _ digest := pure ((s.callFetch digest.text).mapError ServiceError.statusText)

/-- the request for a text with the options and values of a manifest -/
def requestFor (manifest : Manifest) (text : String) (bound : Bindings) : CompileRequest :=
  ⟨text, bound, manifest.required, manifest.workgroup⟩

theorem compileRemote_eq (cwd url path : String) (server : Server) (manifest : Manifest) :
    compileRemote (FileTree.access cwd) (delivering server) url path manifest =
      (attempt ((FileTree.access cwd).read path) .file >>= fun bytes =>
        textOr (.malformed path .malformed) (documentText bytes) >>= fun text =>
        liftError (compileRequest manifest text) .parameter >>= fun request =>
        liftError (answer server request) (.remote url) >>= fun response =>
          pure response.artifact) := by
  unfold compileRemote
  refine congrArg _ (funext fun bytes => ?_)
  cases documentText bytes <;> rfl

theorem compileRemote_ok {cwd url path : String} {server : Server} {manifest : Manifest} {s : Shell}
    {t : FileTree} {p : Program} :
    result (compileRemote (FileTree.access cwd) (delivering server) url path manifest) s t = .ok p ↔
      ∃ text bound known, textAt t cwd path = some text ∧ manifest.values = .ok bound ∧
        answer server (requestFor manifest text bound) = .ok ⟨p, known⟩ := by
  have request (text : String) (r : CompileRequest) : compileRequest manifest text = .ok r ↔
      ∃ bound, manifest.values = .ok bound ∧ r = requestFor manifest text bound :=
    bind_pure_ok
  rw [result_ok_iff, compileRemote_eq]
  simp only [done_read_bind, done_textOr_bind, done_liftError_bind, done_pure, textAt_iff, request]
  constructor
  · rintro ⟨_, _, bytes, read, text, written, _, ⟨bound, valued, rfl⟩, ⟨_, known⟩,
      answered, rfl, -, -⟩
    exact ⟨text, bound, known, ⟨bytes, read, written⟩, valued, answered⟩
  · rintro ⟨text, bound, known, ⟨bytes, read, written⟩, valued, answered⟩
    exact ⟨_, _, bytes, read, text, written, _, ⟨bound, valued, rfl⟩, _, answered, rfl, rfl, rfl⟩

end Command

namespace Command

open Service Compile

def documentAt (t : FileTree) (cwd path : String) : Option Document :=
  (textAt t cwd path).bind fun text => (Document.parse text).toOption

/-- texts and lists of a length that a word holds -/
structure Holdable (manifest : Manifest) (t : FileTree) (cwd path : String) : Prop where
  document : ∀ text, textAt t cwd path = some text → IsSized text
  names : ∀ p ∈ manifest.parameters, IsSized p.1
  parameters : manifest.parameters.length < 2 ^ 63
  required : ∀ names, manifest.required = some names → names.length < 2 ^ 63 ∧
    ∀ name ∈ names, IsSized name

/-- what a manifest asks of a document is what a service is asked: no list is too long to be read,
and an empty list of required outputs, which arrives as none given, makes no difference -/
structure Arrives (manifest : Manifest) (doc : Document) : Prop where
  parameters : manifest.parameters.length ≤ Cbor.Item.maxElements
  required : (manifest.required.getD []).length ≤ Cbor.Item.maxElements
  outputs : manifest.required = some [] → "density" ∈ doc.targets ∧ "color" ∈ doc.targets

theorem answer_ok {server : Server} (sized : r.Sized) {response : CompileResponse} :
    answer server r = .ok response ↔ r.Short ∧ (server.compile r.arrived).1 = .ok response := by
  obtain ⟨arrives, lost⟩ := CompileRequest.decode_encode sized
  unfold answer
  by_cases short : r.Short
  · rw [arrives short]
    exact mapError_eq_ok.trans ⟨fun h => ⟨short, h⟩, fun h => h.2⟩
  · rw [lost short]
    constructor
    · intro h
      cases h
    · intro h
      exact absurd h.1 short

theorem lookup_arrived (normal : ∀ q ∈ r.parameters, q.2.normal = q.2)
    (name : String) : r.arrived.parameters.lookup name = r.parameters.lookup name := by
  have same : r.arrived.parameters = r.parameters.mergeSort fun a b => Cbor.keyLe a.1 b.1 := by
    unfold CompileRequest.arrived
    refine (map_congr_left fun q member => ?_).trans (map_id _)
    rw [normal q (mem_mergeSort.1 member)]
    rfl
  rw [same, lookup_mergeSort]

/-- what is required of a document there is what is required here, but for an empty list -/
theorem required_arrived {required : Option (List String)} {bindings bindings' : Bindings}
    {workgroup : Int} (outputs : required = some [] → "density" ∈ doc.targets ∧
      "color" ∈ doc.targets) :
    (∀ name ∈ (Options.mk bindings required workgroup).requiredOutputs, name ∈ doc.targets) ↔
      ∀ name ∈ (Options.mk bindings' (someList required) workgroup).requiredOutputs,
        name ∈ doc.targets := by
  rcases required with _ | _ | ⟨name, names⟩
  · exact Iff.rfl
  · constructor
    · intro _
      show ∀ name ∈ ["density", "color"], name ∈ doc.targets
      simpa using outputs rfl
    · intro _
      exact nofun
  · exact Iff.rfl

theorem documentAt_eq {t : FileTree} {cwd path text : String}
    (found : textAt t cwd path = some text) (parsed : Document.parse text = .ok doc) :
    documentAt t cwd path = some doc := by
  unfold documentAt
  rw [found]
  show (Document.parse text).toOption = some doc
  rw [parsed]
  rfl

section
variable {manifest : Manifest} {t : FileTree} {cwd path text : String} {bound values : Bindings}

theorem Holdable.sized (held : Holdable manifest t cwd path) (loaded : manifest.Loaded)
    (found : textAt t cwd path = some text) (valued : manifest.values = .ok bound) :
    (requestFor manifest text bound).Sized := by
  obtain ⟨length, each⟩ := Manifest.valuesOf_ok valued
  refine ⟨held.document text found, ?_, ?_, held.required, loaded.workgroup⟩
  · intro q member
    obtain ⟨p, there, name, -⟩ := each q member
    rw [name]
    exact held.names p there
  · show bound.length < 2 ^ 63
    rw [length]
    exact held.parameters

theorem gives_arrived (loaded : manifest.Loaded) (valued : manifest.values = .ok bound)
    (outputs : manifest.required = some [] → "density" ∈ doc.targets ∧ "color" ∈ doc.targets)
    {h : Graph} (built : g.Built) (built' : h.Built) (text : String) (p : Program) :
    doc.Gives g ⟨mergedValues bound values, manifest.required, manifest.workgroup⟩ p ↔
      doc.Gives h ⟨(requestFor manifest text bound).arrived.parameters ++ values,
        someList manifest.required, manifest.workgroup⟩ p := by
  refine Document.gives_iff built built' ?_ ?_ (required_arrived outputs)
  · intro name
    have arrived : (requestFor manifest text bound).arrived.parameters.lookup name =
        bound.lookup name := lookup_arrived (loaded.values valued) name
    rw [lookup_mergedValues, lookup_append, lookup_append, arrived]
  · rfl

end

section
variable {manifest : Manifest} {t : FileTree} {cwd path url : String}
  {shell : Shell} {server : Server}
variable {p : Program}

section
variable (loaded : manifest.Loaded) (held : Holdable manifest t cwd path)
  (built : shell.graph.Built)
  (running : server.worker.stopped = false) (built' : server.graph.Built)
include loaded held built running built'

/-- what a service gives is what is compiled here, and then all that the manifest asks for
has arrived -/
theorem local_of_remote
    (given : result (compileRemote (FileTree.access cwd) (delivering server) url path manifest)
      shell t = .ok p) :
    result (compileLocal (FileTree.access cwd) path manifest) shell t = .ok p ∧
      p.digest.isZero = false ∧ ∀ doc, documentAt t cwd path = some doc → Arrives manifest doc := by
  obtain ⟨text, bound, known, found, valued, answered⟩ := compileRemote_ok.1 given
  obtain ⟨short, compiled⟩ := (answer_ok (held.sized loaded found valued)).1 answered
  obtain ⟨doc, parsed, made, nonzero⟩ := (Server.compile_ok running built').1 ⟨known, compiled⟩
  obtain ⟨values, valued', given⟩ := Document.compile_ok_iff.1 made
  have outputs : manifest.required = some [] → "density" ∈ doc.targets ∧ "color" ∈ doc.targets := by
    intro empty
    have asked : ∀ name ∈ ((someList manifest.required).getD ["density", "color"]),
        name ∈ doc.targets := given.required
    rw [empty] at asked
    exact ⟨asked "density" (by simp [someList]), asked "color" (by simp [someList])⟩
  refine ⟨compileLocal_ok.2 ⟨text, doc, bound, values, found, parsed, valued, valued', ?_⟩,
    nonzero, ?_⟩
  · exact (gives_arrived loaded valued outputs built built' text p).2 given
  · intro doc' there
    rw [documentAt_eq found parsed] at there
    cases there
    refine ⟨?_, short.2, outputs⟩
    rw [← (Manifest.valuesOf_ok valued).1]
    exact short.1

theorem remote_of_local
    (given : result (compileLocal (FileTree.access cwd) path manifest) shell t = .ok p)
    (nonzero : p.digest.isZero = false)
    (arrives : ∀ doc, documentAt t cwd path = some doc → Arrives manifest doc) :
    result (compileRemote (FileTree.access cwd) (delivering server) url path manifest)
      shell t = .ok p := by
  obtain ⟨text, doc, bound, values, found, parsed, valued, valued', given⟩ :=
    compileLocal_ok.1 given
  have arrives := arrives doc (documentAt_eq found parsed)
  have short : (requestFor manifest text bound).Short := by
    refine ⟨?_, arrives.required⟩
    show bound.length ≤ _
    rw [(Manifest.valuesOf_ok valued).1]
    exact arrives.parameters
  have given' := (gives_arrived loaded valued arrives.outputs built built' text p).1 given
  have made : (doc.compile server.graph (requestFor manifest text bound).arrived.options).1 =
      .ok p := Document.compile_ok_iff.2 ⟨values, valued', given'⟩
  obtain ⟨known, compiled⟩ : ∃ known,
      (server.compile (requestFor manifest text bound).arrived).1 = .ok ⟨p, known⟩ :=
    (Server.compile_ok running built').2 ⟨doc, parsed, made, nonzero⟩
  exact compileRemote_ok.2 ⟨text, bound, known, found, valued,
    (answer_ok (held.sized loaded found valued)).2 ⟨short, compiled⟩⟩

end

end

/-- **Compiling elsewhere is compiling here.**  A service on any graph gives the program that the
command gives on its own, and fails where the command fails, as long as what the manifest asks for
arrives.  When it does not, or when the program has the digest that no artifact may have, the
service fails. -/
theorem compileRemote_iff {manifest : Manifest} (loaded : manifest.Loaded) {t : FileTree}
    {cwd path : String} (held : Holdable manifest t cwd path) {shell : Shell}
    (built : shell.graph.Built) {server : Server} (running : server.worker.stopped = false)
    (built' : server.graph.Built) (url : String) (p : Program) :
    result (compileRemote (FileTree.access cwd) (delivering server) url path manifest) shell t =
      .ok p ↔ result (compileLocal (FileTree.access cwd) path manifest) shell t = .ok p ∧
        p.digest.isZero = false ∧ ∀ doc, documentAt t cwd path = some doc → Arrives manifest doc :=
  ⟨local_of_remote loaded held built running built', fun ⟨given, nonzero, arrives⟩ =>
    remote_of_local loaded held built running built' given nonzero arrives⟩

/-! ## a manifest that requires nothing -/

/-- a manifest with an empty list of required outputs -/
def bareText : String := "[volume]\nrequired = []\n\n[parameters]\nlevel = 4\n"

def bareManifest : Manifest :=
  { Manifest.blank "/project" with
    required := some []
    parameters := [("level", .integer 4)] }.withDefaults

theorem toList_bareText : bareText.toList =
    ['[', 'v', 'o', 'l', 'u', 'm', 'e', ']', '\n',
      'r', 'e', 'q', 'u', 'i', 'r', 'e', 'd', ' ', '=', ' ', '[', ']', '\n', '\n',
      '[', 'p', 'a', 'r', 'a', 'm', 'e', 't', 'e', 'r', 's', ']', '\n',
      'l', 'e', 'v', 'e', 'l', ' ', '=', ' ', '4', '\n'] := by
  unfold bareText
  simp only [String.reduceToList]

theorem statements_bare : Toml.statements? bareText =
    some [.table ["volume"], .entry ["required"] (.array []), .table ["parameters"],
      .entry ["level"] (.scalar (.integer 4))] := by
  unfold Toml.statements?
  rw [toList_bareText]
  refine (if_pos ?_).trans ?_
  · decide
  · rfl

section
open Toml Builder

theorem run_statement {s : Statement} {rest : List Statement} {b b' : Builder}
    (first : (statement s).run b = some ((), b')) :
    ((s :: rest).forM statement).run b = (rest.forM statement).run b' := by
  show ((statement s).run b).bind (fun q => (rest.forM statement).run q.2) = _
  rw [first]
  rfl

theorem parse_bare : Toml.parse? bareText =
    some (.table [(.text "volume", .table [(.text "required", .list [])]),
      (.text "parameters", .table [(.text "level", .integer 4)])]) := by
  let volume : Rows := [("volume", .table [("required", .value (.list []))])]
  have first : (statement (.table ["volume"])).run .empty =
      some ((), ⟨[("volume", .table [])], [], [], ["volume"]⟩) := rfl
  have second : (statement (.entry ["required"] (.array []))).run
      ⟨[("volume", .table [])], [], [], ["volume"]⟩ =
        some ((), ⟨volume, [], [["volume", "required"]], ["volume"]⟩) := by
    simp only [statement, entry, value, values]
    rfl
  have third : (statement (.table ["parameters"])).run
      ⟨volume, [], [["volume", "required"]], ["volume"]⟩ =
        some ((), ⟨volume ++ [("parameters", .table [])], [], [["volume", "required"]],
          ["parameters"]⟩) := rfl
  have fourth : (statement (.entry ["level"] (.scalar (.integer 4)))).run
      ⟨volume ++ [("parameters", .table [])], [], [["volume", "required"]], ["parameters"]⟩ =
        some ((), ⟨volume ++ [("parameters", .table [("level", .value (.integer 4))])], [],
          [["volume", "required"]], ["parameters"]⟩) := by
    simp only [statement, entry, value]
    rfl
  unfold Toml.parse?
  rw [statements_bare]
  show ((List.forM _ statement).run .empty).bind
    (fun q => some (Setting.table (rowSettings q.2.root))) = _
  rw [run_statement first, run_statement second, run_statement third, run_statement fourth]
  rfl

end

theorem loaded_bare : bareManifest.Loaded := by
  refine ⟨"/project", .inr ⟨bareText, ?_⟩⟩
  unfold Manifest.parse
  rw [parse_bare]
  have admitted : Manifest.schema.admits
      (.table [(.text "volume", .table [(.text "required", .list [])]),
      (.text "parameters", .table [(.text "level", .integer 4)])]) = true := by
    decide
  show (if Manifest.schema.admits _ then _ else _) = _
  rw [if_pos admitted]
  rfl

theorem values_bare : bareManifest.values = .ok [("level", .scalar (.ofInt 4))] := rfl

/-! ## a folder with one text -/

/-- the only file is a text -/
def soleText (cwd path text : String) : FileTree :=
  ⟨[(Path.resolve cwd path, text.toUTF8.toList)], []⟩

theorem textAt_soleText (cwd path text : String) :
    textAt (soleText cwd path text) cwd path = some text := by
  refine textAt_iff.2 ⟨text.toUTF8.toList, ?_, Hash.Token.fromUTF8?_toUTF8 text⟩
  simp [FileTree.read, FileTree.file?, soleText]

theorem documentAt_soleText (cwd path text : String) :
    documentAt (soleText cwd path text) cwd path = (Document.parse text).toOption := by
  unfold documentAt
  rw [textAt_soleText]
  rfl

theorem holdable_bare {text : String} (sized : IsSized text) (cwd path : String) :
    Holdable bareManifest (soleText cwd path text) cwd path := by
  refine ⟨fun text' found => ?_, ?_, by decide, ?_⟩
  · rw [textAt_soleText] at found
    exact Option.some.inj found ▸ sized
  · intro p member
    obtain rfl := mem_singleton.1 member
    decide
  · rintro names ⟨⟩
    exact ⟨by decide, nofun⟩

/-- the program of a text that gives no values itself -/
def programOf (text : String) (o : Options) : Option Program :=
  (Document.parse text).toOption.bind fun doc =>
    if doc.parameters.isEmpty then (doc.compile .initial o).1.toOption else none

theorem toOption_eq_some {α : Type} {x : Except ε α} {a : α} : x.toOption = some a ↔ x = .ok a := by
  cases x with
  | error e | ok b => simp [Except.toOption]

theorem compileLocal_soleText (cwd path : String) {text : String} {manifest : Manifest}
    {bound : Bindings} (valued : manifest.values = .ok bound) {p : Program}
    (made : programOf text ⟨bound, manifest.required, manifest.workgroup⟩ = some p) :
    result (compileLocal (FileTree.access cwd) path manifest) ⟨"", .initial⟩
      (soleText cwd path text) = .ok p := by
  obtain ⟨doc, parsed, made⟩ := Option.bind_eq_some_iff.1 made
  split at made
  · next bare =>
    have parsed := toOption_eq_some.1 parsed
    have compiled := toOption_eq_some.1 made
    have empty : doc.values = .ok [] := by
      unfold Document.values
      rw [isEmpty_iff.1 bare]
      rfl
    obtain ⟨values, valued', given⟩ := Document.compile_ok_iff.1 compiled
    rw [empty] at valued'
    cases valued'
    exact compileLocal_ok.2 ⟨text, doc, bound, [], textAt_soleText cwd path text, parsed,
      valued, empty, given⟩
  · cases made

/-! ## empty lists -/

/-- a document with the outputs that are required where nothing else is -/
def wholeText : String :=
  "nodes: \x7bd: \x7bop: inject, name: level, value: 1\x7d\x7d\noutputs: \x7bdensity: d, color: position\x7d\n"

/-- a document with one of them -/
def partText : String :=
  "nodes: \x7bd: \x7bop: inject, name: level, value: 1\x7d\x7d\noutputs: \x7bdensity: d\x7d\n"

/-- a program of the whole document is the same there, although the empty list does not arrive -/
theorem compileRemote_iff_whole :
    bareManifest.Loaded ∧ ∃ p,
      result (compileLocal (FileTree.access "/project") "graph.yaml" bareManifest) ⟨"", .initial⟩
        (soleText "/project" "graph.yaml" wholeText) = .ok p ∧
      result (compileRemote (FileTree.access "/project") (delivering (.start 0))
        "http://host" "graph.yaml"
        bareManifest) ⟨"", .initial⟩ (soleText "/project" "graph.yaml" wholeText) = .ok p := by
  have evaluated : (programOf wholeText ⟨[("level", .scalar (.ofInt 4))], some [], 64⟩).any
        (fun p => !p.digest.isZero) = true ∧
      (Document.parse wholeText).toOption.all
        (fun doc => doc.targets.contains "density" && doc.targets.contains "color") = true := by
    decide +kernel
  obtain ⟨made, targets⟩ := evaluated
  obtain ⟨p, made, nonzero⟩ := (Option.any_eq_true _ _).1 made
  have here := compileLocal_soleText "/project" "graph.yaml" values_bare made
  refine ⟨loaded_bare, p, here,
    (compileRemote_iff loaded_bare (holdable_bare (by decide) _ _) .initial rfl
    .initial "http://host" p).2 ⟨here, by simpa using nonzero, fun doc there => ?_⟩⟩
  rw [documentAt_soleText] at there
  rw [there] at targets
  exact ⟨by decide, by decide, fun _ => by simpa using targets⟩

/-- **An empty list is lost on the way.**  With a manifest that requires no output a document is
compiled here, but a service takes the list for one that is not given and misses an output. -/
theorem compileRemote_part :
    bareManifest.Loaded ∧ (∃ p,
      result (compileLocal (FileTree.access "/project") "graph.yaml" bareManifest) ⟨"", .initial⟩
        (soleText "/project" "graph.yaml" partText) = .ok p) ∧
    ∀ p, result (compileRemote (FileTree.access "/project") (delivering (.start 0))
      "http://host" "graph.yaml"
      bareManifest) ⟨"", .initial⟩ (soleText "/project" "graph.yaml" partText) ≠ .ok p := by
  have evaluated :
      (programOf partText ⟨[("level", .scalar (.ofInt 4))], some [], 64⟩).isSome = true ∧
      (Document.parse partText).toOption.any (fun doc => !doc.targets.contains "color") = true := by
    decide +kernel
  obtain ⟨made, targets⟩ := evaluated
  obtain ⟨p, made⟩ := Option.isSome_iff_exists.1 made
  obtain ⟨doc, parsed, missing⟩ := (Option.any_eq_true _ _).1 targets
  refine ⟨loaded_bare, ⟨p, compileLocal_soleText _ _ values_bare made⟩, fun q given => ?_⟩
  have arrives := (local_of_remote loaded_bare (holdable_bare (by decide) _ _) .initial rfl .initial
    given).2.2 doc ((documentAt_soleText _ _ _).trans parsed)
  simp [(arrives.outputs rfl).2] at missing

end Command
end Terrain
