import Terrain.Compile.Module
import Terrain.Graph.Validate

/-!
# Declarations in the text of a program

A program is checked for names that are missing or clash by what stands in its text.  The text is
read one character at a time: words are letters, digits and underscores, the word behind `fn`,
`struct` or `var<…>` is declared, and every other word is a mention, which is applied if a call or
an index follows it.  Comments and attributes are skipped.  What is mentioned between two
declarations belongs to the first one.

* `Reader.next`, `token?`     one character;
* `Reader.tokens`             a text;
* `declarations`              the declarations of a text, each with what it mentions;
* `Allowed`                   a mention of something known, or of nothing that a program declares;
* `Closes`, `Ends`            pieces of a body that mention what is allowed;
* `Declares`                  a text that declares one name;
* `Reading`                   a text that declares names, each behind what it mentions;
* `Reading.declarations_eq`   the declarations of such a text.
-/

namespace Terrain.Kernel

open List

variable {w : List Char} {ts : List Token} {s : State} {text : String}

/-! ## reading -/

namespace Reader

/-- what is read in a text -/
inductive Token where
  | declares (name : List Char)
  | mentions (word : List Char) (applied : Bool)
deriving DecidableEq, Repr

/-- where reading stands; words are kept with the latest character first -/
inductive State where
  | idle
  | word (w : List Char)
  /-- the next word is declared -/
  | heading
  | name (w : List Char)
  /-- behind `var<` -/
  | address
  | attribute
  | slash
  | comment
deriving DecidableEq, Repr

def isHead (w : List Char) : Bool := w = ['f', 'n'] || w = ['s', 't', 'r', 'u', 'c', 't']

/-- a variable of an address space, which is declared for the whole program -/
def opensAddress (w : List Char) (c : Char) : Bool := w = ['v', 'a', 'r'] && c = '<'

/-- the state behind a character that belongs to no word -/
def behindMark (c : Char) : State :=
  if c = '/' then .slash else if c = '@' then .attribute else .idle

def next : State → Char → State
  | .idle, c => if isIdentifierRest c then .word [c] else behindMark c
  | .word w, c =>
    if isIdentifierRest c then .word (c :: w)
    else if isHead w.reverse then .heading
    else if opensAddress w.reverse c then .address
    else behindMark c
  | .heading, c => if isIdentifierRest c then .name [c] else .heading
  | .name w, c => if isIdentifierRest c then .name (c :: w) else behindMark c
  | .address, c => if c = '>' then .heading else .address
  -- an attribute ends at the first blank
  | .attribute, c => if c = ' ' || c = '\n' then .idle else .attribute
  | .slash, c =>
    if c = '/' then .comment else if isIdentifierRest c then .word [c] else behindMark c
  | .comment, c => if c = '\n' then .idle else .comment

/-- the token that a character completes -/
def token? : State → Char → Option Token
  | .word w, c =>
    if isIdentifierRest c || isHead w.reverse || opensAddress w.reverse c then none
    else some (.mentions w.reverse (c = '(' || c = '['))
  | .name w, c => if isIdentifierRest c then none else some (.declares w.reverse)
  | _, _ => none

def stateAfter (s : State) (text : List Char) : State := text.foldl next s

def tokens : State → List Char → List Token
  | _, [] => []
  | s, c :: text => (token? s c).toList ++ tokens (next s c) text

/-- a text leads from one state to another and has these tokens -/
structure Runs (s : State) (text : List Char) (s' : State) (ts : List Token) : Prop where
  state : stateAfter s text = s'
  tokens : tokens s text = ts

section
variable {s t u : State} {a b w : List Char} {ts us : List Token}

theorem Runs.nil (s : State) : Runs s [] s [] := ⟨rfl, rfl⟩

theorem Runs.skip {c : Char} (state : next s c = t) (token : token? s c = none)
    (h : Runs t a u ts) : Runs s (c :: a) u ts := by
  subst state
  refine ⟨h.state, ?_⟩
  show (token? s c).toList ++ Reader.tokens (next s c) a = ts
  rw [token, h.tokens]
  rfl

theorem Runs.emit {c : Char} {new : Token} (state : next s c = t) (token : token? s c = some new)
    (h : Runs t a u ts) : Runs s (c :: a) u (new :: ts) := by
  subst state
  refine ⟨h.state, ?_⟩
  show (token? s c).toList ++ Reader.tokens (next s c) a = new :: ts
  rw [token, h.tokens]
  rfl

theorem Runs.append (h : Runs s a t ts) (h' : Runs t b u us) : Runs s (a ++ b) u (ts ++ us) := by
  induction a generalizing s ts with
  | nil =>
    obtain ⟨rfl, rfl⟩ := h
    exact h'
  | cons c a ih =>
    obtain ⟨state, rfl⟩ := h
    have rest := ih ⟨state, rfl⟩
    refine ⟨rest.state, ?_⟩
    show (token? s c).toList ++ Reader.tokens (next s c) (a ++ b) = (token? s c).toList ++ _ ++ us
    rw [rest.tokens, append_assoc]

end

/-! ## words -/

/-- a word as it stands in a text -/
def isWord (w : List Char) : Bool := !w.isEmpty && w.all isIdentifierRest

/-- a word that does not announce a declaration -/
def isName (w : List Char) : Bool := isWord w && !isHead w

section
variable {w : List Char} {s : State} {f : List Char → State}

theorem runs_chars
    (step : ∀ v c, isIdentifierRest c = true → next (f v) c = f (c :: v) ∧ token? (f v) c = none)
    (v : List Char) (h : w.all isIdentifierRest = true) : Runs (f v) w (f (w.reverse ++ v)) [] := by
  induction w generalizing v with
  | nil => exact .nil _
  | cons c w ih =>
    rw [all_cons, Bool.and_eq_true] at h
    obtain ⟨state, none⟩ := step v c h.1
    rw [reverse_cons, append_assoc]
    exact .skip state none (ih (c :: v) h.2)

theorem runs_collect (start : ∀ c, isIdentifierRest c = true → next s c = f [c] ∧ token? s c = none)
    (step : ∀ v c, isIdentifierRest c = true → next (f v) c = f (c :: v) ∧ token? (f v) c = none)
    (h : isWord w = true) : Runs s w (f w.reverse) [] := by
  unfold isWord at h
  cases w with
  | nil => cases h
  | cons c w =>
    rw [all_cons, Bool.and_eq_true, Bool.and_eq_true] at h
    obtain ⟨state, none⟩ := start c h.2.1
    rw [reverse_cons]
    exact .skip state none (runs_chars step [c] h.2.2)

theorem runs_word (h : isWord w = true) : Runs .idle w (.word w.reverse) [] :=
  runs_collect (fun _ rest => ⟨if_pos rest, rfl⟩)
    (fun _ _ rest => ⟨if_pos rest, by simp [token?, rest]⟩) h

theorem runs_name (h : isWord w = true) : Runs .heading w (.name w.reverse) [] :=
  runs_collect (fun _ rest => ⟨if_pos rest, rfl⟩)
    (fun _ _ rest => ⟨if_pos rest, by simp [token?, rest]⟩) h

/-- nothing is read up to the blank behind an attribute -/
theorem runs_attribute (h : w.all (fun c => !(c = ' ' || c = '\n')) = true) :
    Runs .attribute w .attribute [] := by
  induction w with
  | nil => exact .nil _
  | cons c w ih =>
    rw [all_cons, Bool.and_eq_true, Bool.not_eq_true'] at h
    exact .skip (if_neg (by rw [h.1]; nofun)) rfl (ih h.2)

theorem runs_comment (h : '\n' ∉ w) : Runs .comment w .comment [] := by
  induction w with
  | nil => exact .nil _
  | cons c w ih =>
    rw [mem_cons, not_or] at h
    exact .skip (if_neg fun same => h.1 same.symm) rfl (ih h.2)

end

end Reader

/-! ## what may be mentioned -/

/-- functions and types of the language that programs call -/
def predeclared : List String :=
  ["abs", "sin", "cos", "tan", "sqrt", "exp", "log", "floor", "ceil", "fract", "round", "sign",
   "saturate", "length", "normalize", "min", "max", "pow", "dot", "cross", "select", "mix",
   "clamp", "smoothstep", "f32", "i32", "u32", "bool"]

/-- the same, character by character -/
def predeclaredWords : List (List Char) :=
  [['a', 'b', 's'], ['s', 'i', 'n'], ['c', 'o', 's'], ['t', 'a', 'n'], ['s', 'q', 'r', 't'],
   ['e', 'x', 'p'], ['l', 'o', 'g'], ['f', 'l', 'o', 'o', 'r'], ['c', 'e', 'i', 'l'],
   ['f', 'r', 'a', 'c', 't'], ['r', 'o', 'u', 'n', 'd'], ['s', 'i', 'g', 'n'],
   ['s', 'a', 't', 'u', 'r', 'a', 't', 'e'], ['l', 'e', 'n', 'g', 't', 'h'],
   ['n', 'o', 'r', 'm', 'a', 'l', 'i', 'z', 'e'], ['m', 'i', 'n'], ['m', 'a', 'x'],
   ['p', 'o', 'w'], ['d', 'o', 't'], ['c', 'r', 'o', 's', 's'], ['s', 'e', 'l', 'e', 'c', 't'],
   ['m', 'i', 'x'], ['c', 'l', 'a', 'm', 'p'], ['s', 'm', 'o', 'o', 't', 'h', 's', 't', 'e', 'p'],
   ['f', '3', '2'], ['i', '3', '2'], ['u', '3', '2'], ['b', 'o', 'o', 'l']]

theorem map_predeclaredWords : predeclaredWords.map String.ofList = predeclared := rfl

/-- the stems of the names that are made up for a program -/
def reservedStems : List (List Char) :=
  [['v', 'g', '_'], ['b', 'u', 'f', '_'], ['c', 'a', 'c', 'h', 'e', '_']]

/-- the names that every program declares, but for helpers -/
def reservedNames : List (List Char) :=
  [['S', 'e', 'g', 'm', 'e', 'n', 't'], ['s', 'e', 'g', 'm', 'e', 'n', 't'],
   ['p', 'a', 'r', 'a', 'm', 's'], ['v', 'o', 'x', 'e', 'l', 's']]

/-- can a word be the name of a declaration? -/
def isReserved (w : List Char) : Bool :=
  reservedStems.any (·.isPrefixOf w) || reservedNames.contains w

/-- a mention of a local, a type, a field or a number, or of a function of the language -/
def isHarmless (w : List Char) (applied : Bool) : Bool :=
  !isReserved w && (!applied || predeclaredWords.contains w)

def Allowed (known : String → Prop) (w : List Char) (applied : Bool) : Prop :=
  known (String.ofList w) ∨ isHarmless w applied = true

/-- all tokens are mentions that are allowed -/
def Mentions (known : String → Prop) (ts : List Reader.Token) : Prop :=
  ∀ t ∈ ts, ∃ w applied, t = .mentions w applied ∧ Allowed known w applied

/-- a word that is neither declared nor announces a declaration -/
def isLocal (w : List Char) : Bool :=
  Reader.isWord w && !Reader.isHead w && w ≠ ['v', 'a', 'r'] && !isReserved w

section
open Reader
variable {known known' : String → Prop}

theorem Allowed.mono (more : ∀ x, known x → known' x) {applied : Bool}
    (h : Allowed known w applied) : Allowed known' w applied := h.imp_left (more _)

theorem Mentions.nil : Mentions known [] := nofun

theorem Mentions.append {us : List Token} (h : Mentions known ts) (h' : Mentions known us) :
    Mentions known (ts ++ us) := forall_mem_append.2 ⟨h, h'⟩

theorem Mentions.mono (more : ∀ x, known x → known' x) (h : Mentions known ts) :
    Mentions known' ts := fun t member =>
  have ⟨w, applied, same, allowed⟩ := h t member
  ⟨w, applied, same, allowed.mono more⟩

theorem mentions_singleton {applied : Bool} (h : Allowed known w applied) :
    Mentions known [.mentions w applied] := forall_mem_singleton.2 ⟨w, applied, rfl, h⟩

/-! ## pieces of a body -/

namespace Reader

/-- a mark that ends a word without applying it -/
def isPlainMark (c : Char) : Bool := !isIdentifierRest c && c ≠ '(' && c ≠ '['

def startsPlain : List Char → Bool
  | [] => false
  | c :: _ => isPlainMark c

/-- between words, or in a word that is not declared -/
def rests : State → Bool
  | .idle => true
  | .word w => isLocal w.reverse
  | _ => false

def isIdle : State → Bool
  | .idle => true
  | _ => false

theorem eq_idle (h : isIdle s = true) : s = .idle := by
  cases s <;> first | rfl | cases h

theorem runs_marked {b : List Char} (own : isLocal w = true) (plain : startsPlain b = true)
    (h : Runs .idle b s ts) : Runs (.word w.reverse) b s (.mentions w false :: ts) := by
  cases b with
  | nil => cases plain
  | cons c b =>
    have mark : (isIdentifierRest c = false ∧ ¬ c = '(') ∧ ¬ c = '[' := by
      simpa [startsPlain, isPlainMark] using plain
    have word : ((isWord w = true ∧ isHead w = false) ∧ ¬ w = ['v', 'a', 'r']) ∧
        isReserved w = false := by
      simpa [isLocal] using own
    have state : next (.word w.reverse) c = next .idle c := by
      simp [next, mark, word, opensAddress]
    have token : token? (.word w.reverse) c = some (.mentions w false) := by
      simp [token?, mark, word, opensAddress]
    refine .emit state token ?_
    exact ⟨h.state, h.tokens⟩

end Reader

def Closes (known : String → Prop) (text : String) : Prop :=
  ∃ ts, Runs .idle text.toList .idle ts ∧ Mentions known ts

def Ends (known : String → Prop) (text : String) : Prop :=
  ∃ ts s, Runs .idle text.toList s ts ∧ Mentions known ts ∧ rests s = true

variable {a b : String}

theorem Closes.mono (more : ∀ x, known x → known' x) (h : Closes known a) : Closes known' a :=
  have ⟨ts, runs, mentions⟩ := h
  ⟨ts, runs, mentions.mono more⟩

theorem Closes.ends (h : Closes known a) (h' : Ends known b) : Ends known (a ++ b) := by
  obtain ⟨ts, runs, mentions⟩ := h
  obtain ⟨us, s, runs', mentions', rest⟩ := h'
  exact ⟨ts ++ us, s, String.toList_append ▸ runs.append runs', mentions.append mentions', rest⟩

theorem Closes.append (h : Closes known a) (h' : Closes known b) : Closes known (a ++ b) := by
  obtain ⟨ts, runs, mentions⟩ := h
  obtain ⟨us, runs', mentions'⟩ := h'
  exact ⟨ts ++ us, String.toList_append ▸ runs.append runs', mentions.append mentions'⟩

section
variable (h : Ends known a) (plain : startsPlain b.toList = true)
include h plain

theorem Ends.runs {us : List Token} (h' : Runs .idle b.toList s us) :
    ∃ ts, Runs .idle (a ++ b).toList s (ts ++ us) ∧ Mentions known ts := by
  obtain ⟨ts, t, runs, mentions, rest⟩ := h
  rw [String.toList_append]
  cases t with
  | idle => exact ⟨ts, runs.append h', mentions⟩
  | word w =>
    have own : isLocal w.reverse = true := rest
    have both := runs_marked own plain h'
    rw [reverse_reverse] at both
    refine ⟨ts ++ [.mentions w.reverse false], ?_, mentions.append (mentions_singleton (.inr ?_))⟩
    · rw [append_assoc]
      exact runs.append both
    · unfold isLocal at own
      unfold isHarmless
      grind
  | _ => cases rest

theorem Ends.append (h' : Ends known b) : Ends known (a ++ b) := by
  obtain ⟨us, s, runs', mentions', rest⟩ := h'
  obtain ⟨ts, runs, mentions⟩ := h.runs plain runs'
  exact ⟨ts ++ us, s, runs, mentions.append mentions', rest⟩

theorem Ends.closes (h' : Closes known b) : Closes known (a ++ b) := by
  obtain ⟨us, runs', mentions'⟩ := h'
  obtain ⟨ts, runs, mentions⟩ := h.runs plain runs'
  exact ⟨ts ++ us, runs, mentions.append mentions'⟩

end

theorem Closes.toEnds (h : Closes known a) : Ends known a :=
  have ⟨ts, runs, mentions⟩ := h
  ⟨ts, .idle, runs, mentions, rfl⟩

/-! ## literal texts -/

/-- is a token a mention of one of these words, or a harmless one? -/
def Reader.Token.isWithin (names : List (List Char)) : Token → Bool
  | .declares _ => false
  | .mentions w applied => names.contains w || isHarmless w applied

theorem mentions_of_isWithin {names : List String}
    (h : ts.all (Token.isWithin (names.map String.toList)) = true) (all : ∀ w ∈ names, known w) :
    Mentions known ts := by
  intro t member
  have within := all_eq_true.1 h t member
  cases t with
  | declares name => cases within
  | mentions w applied =>
    refine ⟨w, applied, rfl, ?_⟩
    rcases Bool.or_eq_true_iff.1 within with listed | harmless
    · obtain ⟨name, there, rfl⟩ := mem_map.1 (contains_iff_mem.1 listed)
      exact .inl (name.ofList_toList.symm ▸ all name there)
    · exact .inr harmless

/-- does a text close, and mention only these words? -/
def isClosed (names : List (List Char)) (l : List Char) : Bool :=
  isIdle (stateAfter .idle l) && (tokens .idle l).all (Token.isWithin names)

section
variable {l : List Char}

theorem closes_within (names : List String) (all : ∀ w ∈ names, known w)
    (h : isClosed (names.map String.toList) l = true) : Closes known (String.ofList l) := by
  obtain ⟨idle, within⟩ := Bool.and_eq_true_iff.1 h
  refine ⟨_, ?_, mentions_of_isWithin within all⟩
  rw [String.toList_ofList]
  exact ⟨eq_idle idle, rfl⟩

theorem closes_literal (text : String) (h : isClosed [] text.toList = true) :
    Closes known text := text.ofList_toList ▸ closes_within [] nofun h

theorem Ends.close (h : Ends known a) (text : String)
    (plain : (startsPlain text.toList && isClosed [] text.toList) = true) :
    Closes known (a ++ text) := by
  obtain ⟨first, rest⟩ := Bool.and_eq_true_iff.1 plain
  exact h.closes first (closes_literal text rest)

/-- does a text end between words or in a local word, and mention nothing else? -/
def isEnding (l : List Char) : Bool :=
  rests (stateAfter .idle l) && (tokens .idle l).all (Token.isWithin [])

theorem ends_literal (h : isEnding text.toList = true) : Ends known text := by
  obtain ⟨rest, within⟩ := Bool.and_eq_true_iff.1 h
  exact ⟨_, _, ⟨rfl, rfl⟩, @mentions_of_isWithin _ known [] within nofun, rest⟩

theorem Ends.literal (h : Ends known a) (text : String)
    (plain : (startsPlain text.toList && isEnding text.toList) = true) :
    Ends known (a ++ text) := by
  obtain ⟨first, rest⟩ := Bool.and_eq_true_iff.1 plain
  exact h.append first (ends_literal rest)

/-! ## words -/

theorem ends_word {w : String} (h : isLocal w.toList = true) : Ends known w := by
  have word : isWord w.toList = true := by
    unfold isLocal at h
    grind
  refine ⟨[], _, runs_word word, .nil, ?_⟩
  show isLocal w.toList.reverse.reverse = true
  rw [reverse_reverse]
  exact h

theorem closes_applied {w : String} {c : Char} (bracket : c = '(' ∨ c = '[')
    (word : isName w.toList = true) (allowed : Allowed known w.toList true) :
    Closes known (w ++ String.ofList [c]) := by
  obtain ⟨word, head⟩ := Bool.and_eq_true_iff.1 word
  have last : Runs (.word w.toList.reverse) [c] .idle [.mentions w.toList true] := by
    have head : isHead w.toList = false := by simpa using head
    have mark : isIdentifierRest c = false ∧ c ≠ '<' ∧ behindMark c = .idle := by
      rcases bracket with rfl | rfl <;> decide
    refine .emit ?_ ?_ (.nil _)
    · simp [Reader.next, head, opensAddress, mark]
    · simp [token?, head, opensAddress, mark, bracket]
  refine ⟨_, ?_, mentions_singleton allowed⟩
  rw [String.toList_append, String.toList_ofList]
  exact (runs_word word).append last

end

/-! ## declarations -/

structure Mention where
  word : String
  applied : Bool
deriving DecidableEq, Repr

/-- a declared name, and what is mentioned behind it up to the next declaration -/
structure Declaration where
  name : String
  body : List Mention
deriving DecidableEq, Repr

/-- the mentions before the first declaration, and the declarations -/
def Reader.gather : List Token → List Mention × List Declaration
  | [] => ([], [])
  | .mentions w applied :: ts => (⟨String.ofList w, applied⟩ :: (gather ts).1, (gather ts).2)
  | .declares w :: ts => ([], ⟨String.ofList w, (gather ts).1⟩ :: (gather ts).2)

def declarations (source : String) : List Declaration := (gather (tokens .idle source.toList)).2

def Mention.token (m : Mention) : Token := .mentions m.word.toList m.applied

def Declaration.tokens (d : Declaration) : List Token :=
  .declares d.name.toList :: d.body.map Mention.token

theorem gather_mentions (body : List Mention) (ts : List Token) :
    gather (body.map Mention.token ++ ts) = (body ++ (gather ts).1, (gather ts).2) := by
  induction body with
  | nil => rfl
  | cons m body ih =>
    show (_ :: (gather (body.map Mention.token ++ ts)).1,
      (gather (body.map Mention.token ++ ts)).2) = _
    rw [ih]
    simp only [String.ofList_toList]
    rfl

theorem gather_declarations (ds : List Declaration) :
    gather (ds.flatMap Declaration.tokens) = ([], ds) := by
  induction ds with
  | nil => rfl
  | cons d ds ih =>
    have rest := gather_mentions d.body (ds.flatMap Declaration.tokens)
    rw [ih, append_nil] at rest
    rw [flatMap_cons, Declaration.tokens, cons_append, gather, rest, String.ofList_toList]

theorem Mentions.exists_body (h : Mentions known ts) :
    ∃ body : List Mention, ts = body.map Mention.token ∧
      ∀ m ∈ body, Allowed known m.word.toList m.applied := by
  induction ts with
  | nil => exact ⟨[], rfl, nofun⟩
  | cons t ts ih =>
    obtain ⟨⟨w, applied, rfl, allowed⟩, rest⟩ := forall_mem_cons.1 h
    obtain ⟨body, rfl, all⟩ := ih rest
    refine ⟨⟨String.ofList w, applied⟩ :: body, ?_, forall_mem_cons.2 ⟨?_, all⟩⟩
    · rw [map_cons, Mention.token, String.toList_ofList]
    · rw [String.toList_ofList]
      exact allowed

/-- a text that declares one name, with a body that mentions what is allowed -/
def Declares (known : String → Prop) (name text : String) : Prop :=
  ∃ ts, Runs .idle text.toList .idle (.declares name.toList :: ts) ∧ Mentions known ts

section
variable {name : String} {l : List Char}

theorem Declares.append (h : Declares known name a) (h' : Closes known b) :
    Declares known name (a ++ b) := by
  obtain ⟨ts, runs, mentions⟩ := h
  obtain ⟨us, runs', mentions'⟩ := h'
  exact ⟨ts ++ us, String.toList_append ▸ runs.append runs', mentions.append mentions'⟩

theorem declares_name (h : Runs .idle a.toList .heading []) (word : isName name.toList = true)
    (marked : b.toList.head?.any (fun c => !isIdentifierRest c) = true) (h' : Closes known b) :
    Declares known name (a ++ name ++ b) := by
  obtain ⟨us, runs, mentions⟩ := h'
  refine ⟨us, ?_, mentions⟩
  rw [String.toList_append, String.toList_append]
  refine (h.append (runs_name (Bool.and_eq_true_iff.1 word).1)).append ?_
  cases chars : b.toList with
  | nil =>
    rw [chars] at marked
    cases marked
  | cons c l =>
    rw [chars] at runs marked
    have mark : isIdentifierRest c = false := by simpa using marked
    refine .emit (t := next .idle c) ?_ ?_ ?_
    · simp [Reader.next, mark]
    · simp [token?, mark]
    · exact ⟨runs.state, runs.tokens⟩

theorem declares_function (word : isName name.toList = true) :
    Declares known name ("fn " ++ name ++ "(") :=
  declares_name ⟨by decide, by decide⟩ word (by decide) (closes_literal _ (by decide))

/-- does a text declare this name, and mention only these words? -/
def isDeclaring (name : List Char) (names : List (List Char)) (l : List Char) : Bool :=
  isIdle (stateAfter .idle l) && match tokens .idle l with
    | .declares w :: ts => w = name && ts.all (Token.isWithin names)
    | _ => false

theorem declares_within (names : List String) (all : ∀ w ∈ names, known w)
    (h : isDeclaring w (names.map String.toList) l = true) :
    Declares known (String.ofList w) (String.ofList l) := by
  obtain ⟨idle, rest⟩ := Bool.and_eq_true_iff.1 h
  split at rest
  case h_1 v ts same =>
    obtain ⟨own, within⟩ := Bool.and_eq_true_iff.1 rest
    refine ⟨ts, ?_, mentions_of_isWithin within all⟩
    rw [String.toList_ofList, String.toList_ofList, ← of_decide_eq_true own, ← same]
    exact ⟨eq_idle idle, rfl⟩
  case h_2 => cases rest

end

/-! ## texts of declarations -/

/-- every declaration mentions what was declared before it, and nothing else that a
program declares -/
def Behind (earlier : List String) (ds : List Declaration) : Prop :=
  ∀ before d after, ds = before ++ d :: after →
    ∀ m ∈ d.body, Allowed (· ∈ earlier ++ before.map Declaration.name) m.word.toList m.applied

def Reading (earlier names : List String) (text : String) : Prop :=
  ∃ ds : List Declaration, Runs .idle text.toList .idle (ds.flatMap Declaration.tokens) ∧
    ds.map Declaration.name = names ∧ Behind earlier ds

section
variable {earlier names more : List String}

theorem Behind.append {ds es : List Declaration} (h : Behind earlier ds)
    (h' : Behind (earlier ++ ds.map Declaration.name) es) : Behind earlier (ds ++ es) := by
  intro before d after split
  rcases append_eq_append_iff.1 split with ⟨mid, rfl, tail⟩ | ⟨mid, rfl, tail⟩
  · have all := h' mid d after tail
    rwa [append_assoc, ← map_append] at all
  · cases mid with
    | nil =>
      rw [append_nil] at h'
      have all := h' [] d after tail.symm
      rwa [map_nil, append_nil] at all
    | cons x mid =>
      obtain ⟨rfl, -⟩ := List.cons.inj tail
      exact h before d mid rfl

theorem behind_singleton {d : Declaration}
    (h : ∀ m ∈ d.body, Allowed (· ∈ earlier) m.word.toList m.applied) : Behind earlier [d] := by
  intro before d' after split
  obtain ⟨rfl, same⟩ := singleton_eq_append_iff.1 split |>.resolve_right (by simp)
  obtain ⟨rfl, -⟩ := List.cons.inj same
  rw [map_nil, append_nil]
  exact h

theorem reading_silent (h : Runs .idle text.toList .idle []) : Reading earlier [] text :=
  ⟨[], h, rfl, by simp [Behind]⟩

theorem Declares.reading {name : String} (h : Declares (· ∈ earlier) name text) :
    Reading earlier [name] text := by
  obtain ⟨ts, runs, mentions⟩ := h
  obtain ⟨body, rfl, all⟩ := mentions.exists_body
  refine ⟨[⟨name, body⟩], ?_, rfl, behind_singleton all⟩
  rw [flatMap_singleton]
  exact runs

theorem Reading.append (h : Reading earlier names a) (h' : Reading (earlier ++ names) more b) :
    Reading earlier (names ++ more) (a ++ b) := by
  obtain ⟨ds, runs, rfl, behind⟩ := h
  obtain ⟨es, runs', rfl, behind'⟩ := h'
  refine ⟨ds ++ es, ?_, map_append, behind.append behind'⟩
  rw [String.toList_append, flatMap_append]
  exact runs.append runs'

theorem Reading.extend {name : String} (h : Reading earlier (names ++ [name]) a)
    (h' : Closes (· ∈ earlier ++ names) b) : Reading earlier (names ++ [name]) (a ++ b) := by
  obtain ⟨ds, runs, named, behind⟩ := h
  obtain ⟨ts, runs', mentions⟩ := h'
  obtain ⟨body, rfl, all⟩ := mentions.exists_body
  obtain ⟨before, last, rfl, rfl, single⟩ := map_eq_append_iff.1 named
  obtain ⟨d, rfl, rfl⟩ := map_eq_singleton_iff.1 single
  have own := behind before d [] rfl
  refine ⟨before ++ [⟨d.name, d.body ++ body⟩], ?_, ?_, Behind.append ?_ (behind_singleton ?_)⟩
  · have both := runs.append runs'
    rw [← String.toList_append] at both
    simpa [flatMap_append, Declaration.tokens] using both
  · rw [map_append]
    rfl
  · exact fun before' d' after split =>
      behind before' d' (after ++ [d]) (by rw [split, append_assoc]; rfl)
  · exact forall_mem_append.2 ⟨own, all⟩

theorem reading_join {α : Type} {f name : α → String} (l : List α)
    (each : ∀ before x after, l = before ++ x :: after →
      Declares (· ∈ earlier ++ before.map name) (name x) (f x)) :
    Reading earlier (l.map name) (String.join (l.map f)) := by
  induction l generalizing earlier with
  | nil => exact reading_silent (.nil _)
  | cons x l ih =>
    have first := each [] x l rfl
    rw [map_nil, append_nil] at first
    rw [map_cons, map_cons, String.join_cons]
    refine first.reading.append (ih fun before y after split => ?_)
    have rest := each (x :: before) y after (by rw [split]; rfl)
    rwa [map_cons, ← singleton_append, ← append_assoc] at rest

theorem Reading.declarations_eq (h : Reading [] names text) :
    (declarations text).map Declaration.name = names ∧ Behind [] (declarations text) := by
  obtain ⟨ds, runs, named, behind⟩ := h
  have same : declarations text = ds := by
    unfold declarations
    rw [runs.tokens, gather_declarations]
  rw [same]
  exact ⟨named, behind⟩

example : declarations
    "var<private> b: array<f32>;\nfn f(x: f32) -> f32 \x7b return sin(x) * b[0]; \x7d // g()\n" =
    [⟨"b", [⟨"array", false⟩, ⟨"f32", false⟩]⟩,
     ⟨"f", [⟨"x", false⟩, ⟨"f32", false⟩, ⟨"f32", false⟩, ⟨"return", false⟩, ⟨"sin", true⟩,
       ⟨"x", false⟩, ⟨"b", true⟩, ⟨"0", false⟩]⟩] := by
  decide

end

end

end Terrain.Kernel
