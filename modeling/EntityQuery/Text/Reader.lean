/-!
# Readers

A reader takes the text that is left and gives either a value with the text after it, or the place
where it stopped, as the text left there. Readers are joined in sequence by `do`; the other ways to
join them decide which place an error shows:

* a choice (`orElse`) shows where its last alternative stopped;
* an optional part, and a repetition, never stop: they give back the text before the attempt;
* a reader that refuses the value it has read (`check`, `convert`) stops where it began.

The place shown by a syntax error is thus settled by the shape of the grammar alone.
-/

namespace EntityQuery

/-- What to make of the text that is left: a value and the rest, or the place where reading
stopped. -/
def Reader (α : Type) : Type :=
  List Char → Except (List Char) (α × List Char)

namespace Reader

variable {α β : Type}

instance : Monad Reader where
  pure a := fun text => .ok (a, text)
  bind p f := fun text =>
    match p text with
    | .ok (a, rest) => f a rest
    | .error place => .error place

/-- The second reader where the first one stops. -/
def orElse (p q : Reader α) : Reader α := fun text =>
  match p text with
  | .ok result => .ok result
  | .error _ => q text

/-- The first reader that does not stop; the last one decides the place of an error. -/
def oneOf (last : Reader α) : List (Reader α) → Reader α
  | [] => last
  | p :: rest => p.orElse (oneOf last rest)

def optional (p : Reader α) : Reader (Option α) := fun text =>
  match p text with
  | .ok (a, rest) => .ok (some a, rest)
  | .error _ => .ok (none, text)

def present (p : Reader α) : Reader Bool := do
  return (← p.optional).isSome

/-- What repeated reading gives: the values, and the text where the next attempt stopped. A value
that takes no text ends the repetition. -/
def repeated (p : Reader α) (text : List Char) : List α × List Char :=
  match p text with
  | .ok (a, rest) =>
    if rest.length < text.length then
      let more := repeated p rest
      (a :: more.1, more.2)
    else ([], text)
  | .error _ => ([], text)
termination_by text.length

def many (p : Reader α) : Reader (List α) := fun text =>
  .ok (repeated p text)

/-- One or more, with separators between them. A separator without a value after it is left. -/
def sepBy1 (separator : Reader β) (p : Reader α) : Reader (List α) := do
  let first ← p
  let rest ← many (do let _ ← separator; p)
  return first :: rest

/-- As many as there are, perhaps none, with separators between them. -/
def sepBy (separator : Reader β) (p : Reader α) : Reader (List α) := do
  return (← (sepBy1 separator p).optional).getD []

/-- A value after any number of marks, each of which changes the value after it. Where the value
after a mark cannot be read, the mark itself has to be the start of a value. -/
def marked (mark : Reader Unit) (change : α → α) (p : Reader α) : Reader α := fun text =>
  match mark text with
  | .ok (_, rest) =>
    if rest.length < text.length then
      match marked mark change p rest with
      | .ok (a, after) => .ok (change a, after)
      | .error _ => p text
    else p text
  | .error _ => p text
termination_by text => text.length

def check (p : Reader α) (test : α → Bool) : Reader α := fun text =>
  match p text with
  | .ok (a, rest) => if test a then .ok (a, rest) else .error text
  | .error place => .error place

def convert (p : Reader α) (f : α → Option β) : Reader β := fun text =>
  match p text with
  | .ok (a, rest) =>
    match f a with
    | some b => .ok (b, rest)
    | none => .error text
  | .error place => .error place

/-! ## Characters and words -/

def char (test : Char → Bool) : Reader Char := fun text =>
  match text with
  | c :: rest => if test c then .ok (c, rest) else .error text
  | [] => .error text

def chars (test : Char → Bool) : Reader (List Char) := fun text =>
  .ok (text.takeWhile test, text.dropWhile test)

def digits : Reader (List Char) :=
  check (chars Char.isDigit) fun run => !run.isEmpty

/-- The text after a word, where letters match by `same`. -/
def afterWord? (same : Char → Char → Bool) : List Char → List Char → Option (List Char)
  | [], text => some text
  | _ :: _, [] => none
  | c :: word, d :: text => if same c d then afterWord? same word text else none

/-- The characters of a word, just as they are. -/
def exactly (word : String) : Reader Unit := fun text =>
  match afterWord? (· == ·) word.toList text with
  | some rest => .ok ((), rest)
  | none => .error text

/-- The characters of a word in either case. -/
def inAnyCase (word : String) : Reader Unit := fun text =>
  match afterWord? (fun c d => c == d.toLower) word.toList text with
  | some rest => .ok ((), rest)
  | none => .error text

/-- The next character is not of a class; nothing is taken. -/
def notNext (test : Char → Bool) : Reader Unit := fun text =>
  match text with
  | c :: _ => if test c then .error text else .ok ((), text)
  | [] => .ok ((), text)

/-! ## How much text is taken -/

theorem length_of_afterWord? {same : Char → Char → Bool} {word text rest : List Char}
    (h : afterWord? same word text = some rest) : text.length = word.length + rest.length := by
  induction word generalizing text with
  | nil => simp_all [afterWord?]
  | cons c word ih =>
    cases text with
    | nil => simp [afterWord?] at h
    | cons d text =>
      simp only [afterWord?] at h
      split at h
      · have := ih h
        simp only [List.length_cons]
        omega
      · simp at h

theorem length_of_exactly {word : String} {text rest : List Char}
    (h : exactly word text = .ok ((), rest)) : text.length = word.toList.length + rest.length := by
  unfold exactly at h
  split at h
  · rename_i found hfound
    cases h
    exact length_of_afterWord? hfound
  · simp at h

end Reader

end EntityQuery
