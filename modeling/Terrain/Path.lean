/-!
# Paths

Paths of files as text, with a slash between their parts.  A clean path has no empty part, no part
that stays in place, and steps upward only at its start, where it is not rooted.
-/

namespace Terrain.Path

def isAbsolute (p : String) : Bool := p.startsWith "/"

def parts (p : String) : List String :=
  (p.splitOn "/").filter fun part => part != "" && part != "."

/-- takes each step upward together with the part before it; `done` is reversed -/
def walk (rooted : Bool) : (done : List String) → List String → List String
  | done, [] => done.reverse
  | done, part :: rest =>
    if part == ".." then
      match done with
      | [] => walk rooted (if rooted then [] else [".."]) rest
      | top :: below => walk rooted (if top == ".." then ".." :: done else below) rest
    else walk rooted (part :: done) rest

def clean (p : String) : String :=
  let body := "/".intercalate (walk (isAbsolute p) [] (parts p))
  if isAbsolute p then "/" ++ body else if body.isEmpty then "." else body

def join (a b : String) : String :=
  if a.isEmpty then (if b.isEmpty then "" else clean b) else clean (a ++ "/" ++ b)

def split (p : String) : String × String :=
  match (p.splitOn "/").reverse with
  | last :: before => ("".intercalate ((before.reverse).map (· ++ "/")), last)
  | [] => ("", p)

def parent (p : String) : String := clean (split p).1

def base (p : String) : String :=
  if p.isEmpty then "."
  else
    match ((p.splitOn "/").filter (· != "")).reverse with
    | last :: _ => last
    | [] => "/"

def resolve (folder p : String) : String := if isAbsolute p then clean p else join folder p

def ancestors (p : String) : List String :=
  let all := parts p
  ((List.range (all.length + 1)).map fun n => "/" ++ "/".intercalate (all.take n)).reverse

end Terrain.Path
