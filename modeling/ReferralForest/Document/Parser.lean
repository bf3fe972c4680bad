import ReferralForest.Document.Token

/-!
# Reading JSON Texts

The tokens of a text are read one after another. The reader keeps the lists and objects it is inside
of, and knows what may come next.
-/

namespace ReferralForest.Document

/-- A list or an object that is being read, with what it holds so far, last first. -/
inductive Frame where
  /-- A list. -/
  | list (items : List Document)
  /-- An object. -/
  | object (entries : List (Option String × Document))
  /-- An object in which the value of a name is being read. -/
  | entry (name : Option String) (entries : List (Option String × Document))

/-- What may come next. -/
inductive Phase where
  /-- A value. -/
  | value
  /-- The first value of a list, or its end. -/
  | firstItem
  /-- The first name of an object, or its end. -/
  | firstName
  /-- A name. -/
  | name
  /-- The colon between a name and its value. -/
  | colon
  /-- A comma or the end of the innermost list or object. -/
  | more
  /-- Nothing: the value is complete. -/
  | complete (value : Document)

/-- The state of the reader. -/
structure Reader where
  /-- The lists and objects it is inside of, innermost first. -/
  frames : List Frame
  /-- What may come next. -/
  phase : Phase

namespace Reader

/-- A value is complete. -/
def give (value : Document) : List Frame → Option Reader
  | [] => some ⟨[], .complete value⟩
  | .list items :: outer => some ⟨.list (value :: items) :: outer, .more⟩
  | .entry name entries :: outer => some ⟨.object ((name, value) :: entries) :: outer, .more⟩
  | .object _ :: _ => none

/-- The object of given entries. A name that is no text makes it unreadable as a whole. -/
def objectOf (entries : List (Option String × Document)) : Document :=
  match entries.mapM fun (name, value) => name.map (·, value) with
  | some entries => .object entries
  | none => .unreadable

/-- The innermost list or object ends. -/
def close : Token → List Frame → Option Reader
  | .endList, .list items :: outer => give (.list items.reverse) outer
  | .endObject, .object entries :: outer => give (objectOf entries.reverse) outer
  | _, _ => none

/-- A value begins. -/
def value (frames : List Frame) : Token → Option Reader
  | .scalar d => give d frames
  | .text (some t) => give (.text t) frames
  | .text none => give .unreadable frames
  | .beginList => some ⟨.list [] :: frames, .firstItem⟩
  | .beginObject => some ⟨.object [] :: frames, .firstName⟩
  | _ => none

/-- A name comes. -/
def name : List Frame → Token → Option Reader
  | .object entries :: outer, .text name => some ⟨.entry name entries :: outer, .colon⟩
  | _, _ => none

/-- Reads a token. -/
def step (r : Reader) (t : Token) : Option Reader :=
  match r.phase with
  | .value => value r.frames t
  | .firstItem => (close t r.frames).or (value r.frames t)
  | .firstName => (close t r.frames).or (name r.frames t)
  | .name => name r.frames t
  | .colon =>
    match t with
    | .colon => some { r with phase := .value }
    | _ => none
  | .more =>
    match t, r.frames with
    | .comma, .list _ :: _ => some { r with phase := .value }
    | .comma, .object _ :: _ => some { r with phase := .name }
    | t, frames => close t frames
  | .complete _ => none

end Reader

/-- **The value of a JSON text**, if it is one. -/
def parse (text : String) : Option Document := do
  let tokens ← tokens? text
  let r ← tokens.foldlM Reader.step ⟨[], .value⟩
  match r.phase with
  | .complete value => some value
  | _ => none

end ReferralForest.Document
