/-!
# Paths

A path is kept as the parts of its text between slashes, so that the text can be told again as it
was given.  Parts that are empty or a single dot lead nowhere, and at the end of a path they do not
count when its last name or its parent is asked for.
-/

namespace Reclaim

/-- a path as the parts of its text between slashes -/
structure Path where
  parts : List String
deriving DecidableEq, Inhabited

namespace Path

/-! ## paths and texts -/

/-- the parts of a text between slashes -/
def cut : List Char → List (List Char)
  | [] => [[]]
  | c :: r =>
    if c = '/' then [] :: cut r
    else
      match cut r with
      | [] => [[c]]
      | p :: ps => (c :: p) :: ps

/-- parts put together with slashes -/
def glue : List (List Char) → List Char
  | [] => []
  | [p] => p
  | p :: q :: r => p ++ '/' :: glue (q :: r)

def ofText (s : String) : Path := ⟨(cut s.toList).map String.ofList⟩

def text (p : Path) : String := String.ofList (glue (p.parts.map String.toList))

instance : ToString Path := ⟨text⟩

def empty : Path := ⟨[""]⟩

/-! ## going down -/

def join (p : Path) (name : String) : Path :=
  match p.parts.getLast? with
  | some "" => ⟨p.parts.dropLast ++ [name]⟩
  | _ => ⟨p.parts ++ [name]⟩

/-- a path whose text has something more at its end -/
def append (p : Path) (more : String) : Path :=
  match p.parts.getLast? with
  | some s => ⟨p.parts.dropLast ++ [s ++ more]⟩
  | none => ⟨[more]⟩

/-! ## names -/

/-- parts that lead nowhere -/
def leadsNowhere (s : String) : Bool := s = "" || s = "."

/-- parts without those at the end that lead nowhere; the first one always stays -/
def trim : List String → List String
  | [] => []
  | first :: rest => first :: (rest.reverse.dropWhile leadsNowhere).reverse

/-- the name that a path ends in, if it ends in a name -/
def name? (p : Path) : Option String :=
  match (trim p.parts).getLast? with
  | none => none
  | some s => if leadsNowhere s || s = ".." then none else some s

/-- the path of what a path's last part is in -/
def parent? (p : Path) : Option Path :=
  match trim p.parts with
  | [] => none
  | [s] => if s = "" then none else some empty
  | first :: rest =>
    match trim (first :: rest.dropLast) with
    | [""] => some ⟨["", ""]⟩
    | parts => some ⟨parts⟩

/-- the path of another name beside a path's last name; below the path if it ends in none -/
def sibling (p : Path) (name : String) : Path :=
  match p.name?, p.parent? with
  | some _, some q => q.join name
  | _, _ => p.join name

/-- a name without its last ending; a dot at the front begins no ending -/
def stemOf (name : String) : String :=
  match name.toList.reverse.span (· != '.') with
  | (_, _ :: c :: r) => String.ofList (c :: r).reverse
  | _ => name

/-- the name that a path ends in without its last ending -/
def stem (p : Path) : String := (p.name?.map stemOf).getD ""

end Path

end Reclaim
