/-!
# Ignore patterns

A pattern is matched against a whole text. `*` stands for any characters, slashes among them, `?`
for any one character, and brackets for one character of a set, or after `!` for one outside it. A
bracket that is not closed stands for itself.

In a set two characters joined by a hyphen are a range. A range whose ends are in the wrong order
is empty and disappears together with its ends.
-/

namespace SourceIndex.Glob

inductive Element
  | anyText
  | anyChar
  | never
  | exactly (c : Char)
  | within (negated : Bool) (ranges : List (Char × Char))
  deriving DecidableEq, Repr

/-! ### Sets -/

/-- The runs of a set's text between the hyphens that make ranges. A hyphen makes one only if it
has a character before it that ends no earlier range; `wait` counts the characters up to the first
position where a hyphen does. `run` is the run so far, last character first. -/
def runsOf (wait : Nat) (run : List Char) : List Char → List (List Char)
  | [] => [run.reverse]
  | c :: rest =>
    match wait with
    | wait + 1 => runsOf wait (c :: run) rest
    | 0 => if c = '-' then run.reverse :: runsOf 2 [] rest else runsOf 0 (c :: run) rest

/-- The runs, with a hyphen at the very end put to the run before it. -/
def mergeTail (runs : List (List Char)) : List (List Char) :=
  match runs.reverse with
  | [] :: last :: before => (before.reverse ++ [last ++ ['-']])
  | _ => runs

/-- The runs without the empty ranges between them: where a run ends behind the start of the next
one, the two are joined without these characters. -/
def dropEmptyRanges (runs : List (List Char)) : List (List Char) :=
  runs.foldr
    (fun run found => match found with
      | next :: rest =>
        match run.getLast?, next.head? with
        | some low, some high =>
          if high < low then (run.dropLast ++ next.tail) :: rest else run :: found
        | _, _ => run :: found
      | [] => [run])
    []

/-- The ranges of a set, given its runs: the last character of a run and the first one of the next
are the ends of a range, all other characters stand for themselves. So does the hyphen after a
first run that is empty. -/
def rangesOf (open? : Option Char) : List (List Char) → List (Char × Char)
  | [] => []
  | run :: rest =>
    let single (cs : List Char) := cs.map fun c => (c, c)
    match open?, run with
    | some low, high :: more =>
      match rest with
      | [] => (low, high) :: single more
      | _ => (low, high) :: single more.dropLast ++ rangesOf more.getLast? rest
    | _, _ =>
      match rest with
      | [] => single run
      | _ =>
        match run.getLast? with
        | some low => single run.dropLast ++ rangesOf (some low) rest
        | none => ('-', '-') :: rangesOf none rest

def setElement (stuff : List Char) : Element :=
  let runs := if stuff.contains '-' then
      dropEmptyRanges (mergeTail (runsOf (if stuff.head? = some '!' then 2 else 1) [] stuff))
    else [stuff]
  match runs with
  -- Nothing but empty ranges was there, so that no character is left, or none is left out.
  | [[]] => .never
  | [['!']] => .anyChar
  | ('!' :: run) :: rest => .within true (rangesOf none (run :: rest))
  | _ => .within false (rangesOf none runs)

/-- The text of a set after its opening bracket, and the rest after its closing one. A closing
bracket that comes first, also after `!`, belongs to the set. -/
def setText? (cs : List Char) : Option (List Char × List Char) :=
  let (negation, body) := match cs with
    | '!' :: rest => (['!'], rest)
    | _ => ([], cs)
  let (first, body) := match body with
    | ']' :: rest => ([']'], rest)
    | _ => ([], body)
  let more := body.takeWhile (· ≠ ']')
  match body.drop more.length with
  | _ :: rest => some (negation ++ first ++ more, rest)
  | [] => none

/-! ### Patterns -/

/-- The elements of a pattern. Every step takes a character off it, so `fuel` of its length is
enough. -/
def elementsOf : Nat → List Char → List Element
  | 0, _ => []
  | _, [] => []
  | fuel + 1, c :: rest =>
    if c = '*' then .anyText :: elementsOf fuel rest
    else if c = '?' then .anyChar :: elementsOf fuel rest
    else if c = '[' then
      match setText? rest with
      | some (stuff, more) => setElement stuff :: elementsOf fuel more
      | none => .exactly c :: elementsOf fuel rest
    else .exactly c :: elementsOf fuel rest

def parse (pattern : String) : List Element :=
  elementsOf pattern.toList.length pattern.toList

def Element.fits (element : Element) (c : Char) : Bool :=
  match element with
  | .anyText => false
  | .anyChar => true
  | .never => false
  | .exactly d => c = d
  | .within negated ranges => ranges.any (fun range => range.1 ≤ c && c ≤ range.2) != negated

def accepts : List Element → List Char → Bool
  | [], cs => cs.isEmpty
  | .anyText :: elements, cs => skip (accepts elements) cs
  | element :: elements, cs =>
    match cs with
    | [] => false
    | c :: rest => element.fits c && accepts elements rest
where
  /-- Whether some end of the text is accepted. -/
  skip (rest : List Char → Bool) : List Char → Bool
    | [] => rest []
    | c :: cs => rest (c :: cs) || skip rest cs

/-! ### Matching in one pass

Trying every end of the text after every `*` again takes too long when there are many of them. So
the answers for all ends of the text are found together, one element of the pattern at a time. -/

def ends : List Char → List (List Char)
  | [] => [[]]
  | c :: cs => (c :: cs) :: ends cs

def orLater (answers : List Bool) : List Bool :=
  answers.foldr (fun answer later => (answer || later.head?.getD false) :: later) []

/-- For each end of a text whether the elements of a pattern stand for it. -/
def acceptsEnds : List Element → List Char → List Bool
  | [], cs => (ends cs).map List.isEmpty
  | .anyText :: elements, cs => orLater (acceptsEnds elements cs)
  | element :: elements, cs =>
    List.zipWith (fun c later => element.fits c && later) cs (acceptsEnds elements cs).tail ++
      [false]

theorem head?_map_ends {α : Type} (f : List Char → α) (cs : List Char) :
    ((ends cs).map f).head? = some (f cs) := by
  cases cs <;> rfl

theorem orLater_map_ends (f : List Char → Bool) (cs : List Char) :
    orLater ((ends cs).map f) = (ends cs).map (accepts.skip f) := by
  induction cs with
  | nil => simp [ends, orLater, accepts.skip]
  | cons c cs ih =>
    have later := head?_map_ends (accepts.skip f) cs
    simp only [ends, List.map_cons]
    unfold orLater at ih ⊢
    rw [List.foldr_cons, ih, later]
    rfl

theorem zipWith_tail_ends (element : Element) (f : List Char → Bool) (cs : List Char) :
    List.zipWith (fun c later => element.fits c && later) cs ((ends cs).map f).tail ++ [false] =
      (ends cs).map fun rest =>
        match rest with
        | [] => false
        | c :: more => element.fits c && f more := by
  induction cs with
  | nil => rfl
  | cons c cs ih =>
    cases cs with
    | nil => rfl
    | cons d ds =>
      simp only [ends, List.map_cons, List.tail_cons, List.zipWith_cons_cons,
        List.cons_append] at ih ⊢
      rw [ih]

/-- The answers for all ends are those that each end gets on its own. -/
theorem acceptsEnds_eq (elements : List Element) (cs : List Char) :
    acceptsEnds elements cs = (ends cs).map (accepts elements) := by
  induction elements with
  | nil =>
    simp only [acceptsEnds]
    rfl
  | cons element elements ih =>
    cases element with
    | anyText =>
      simp only [acceptsEnds, ih, orLater_map_ends]
      rfl
    | _ =>
      simp only [acceptsEnds, ih, zipWith_tail_ends]
      rfl

/-- Whether a pattern stands for the whole of a text. -/
def covers (pattern text : String) : Bool :=
  (acceptsEnds (parse pattern) text.toList).head?.getD false

theorem covers_eq (pattern text : String) :
    covers pattern text = accepts (parse pattern) text.toList := by
  unfold covers
  rw [acceptsEnds_eq, head?_map_ends]
  rfl

end SourceIndex.Glob
