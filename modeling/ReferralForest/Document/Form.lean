import ReferralForest.Document.Basic

/-!
# Forms

A *form* says how values of a type stand in documents: how they are written, and which documents are
read as them. Reading is more liberal than writing. A structure is written as an object whose entries
are its fields in order; it is read from an object with the fields in any order and possibly others
between them, each field at most once, or from the list of its field values in order. Texts are never
read as numbers or the other way round.

## Main definitions

* `Form` — forms, with `Form.refine` for types that are checked parts of others.
* `Fields` — the fields of a structure, with `Fields.object` as the form made of them.
* `Form.labels`, `Form.variant?` — the forms of alternatives.
-/

namespace ReferralForest

/-- How values of a type stand in documents. -/
structure Form (α : Type) where
  /-- The value a document is read as. -/
  read : Document → Option α
  /-- The document a value is written as. -/
  write : α → Document

namespace Form

variable {α β : Type}

/-- Texts. -/
def text : Form String where
  read
    | .text t => some t
    | _ => none
  write := .text

/-- Truth values. -/
def bool : Form Bool where
  read
    | .bool b => some b
    | _ => none
  write := .bool

/-- Whole numbers. -/
def integer : Form Int where
  read
    | .integer n => some n
    | _ => none
  write := .integer

/-- The form of values that are made from others by a check. -/
def refine (form : Form α) (make : α → Option β) (parts : β → α) : Form β where
  read d := (form.read d).bind make
  write b := form.write (parts b)

/-- Natural numbers below a bound. -/
def naturalBelow (bound : Nat) : Form Nat :=
  integer.refine (fun n => if 0 ≤ n ∧ n < bound then some n.toNat else none) Int.ofNat

/-- Numbers of 64 bits. -/
def word64 : Form UInt64 :=
  (naturalBelow UInt64.size).refine (fun n => some (.ofNat n)) UInt64.toNat

/-- Signed numbers of 64 bits. -/
def int64 : Form Int64 :=
  integer.refine
    (fun n =>
      if Int64.minValue.toInt ≤ n ∧ n ≤ Int64.maxValue.toInt then some (.ofInt n) else none)
    Int64.toInt

/-- A value or null. -/
def optional (form : Form α) : Form (Option α) where
  read
    | .null => some none
    | d => (form.read d).map some
  write
    | some a => form.write a
    | none => .null

/-- Lists of values. -/
def list (form : Form α) : Form (List α) where
  read
    | .list items => items.mapM form.read
    | _ => none
  write items := .list (items.map form.write)

/-- Lists of values of a fixed length. -/
def vector (n : Nat) (form : Form α) : Form (Vector α n) :=
  form.list.refine
    (fun items => if h : items.toArray.size = n then some ⟨items.toArray, h⟩ else none)
    (·.toList)

/-- Pairs, as lists of two values. -/
def pair (first : Form α) (second : Form β) : Form (α × β) where
  read
    | .list [a, b] => do return (← first.read a, ← second.read b)
    | _ => none
  write p := .list [first.write p.1, second.write p.2]

/-- One of some values, by its label. The label may also stand before a null in an object of its
own. -/
def labels (label : α → String) (all : List α) : Form α where
  read
    | .text t | .object [(t, .null)] => all.find? fun a => label a = t
    | _ => none
  write a := .text (label a)

/-- The content of an alternative with a label, if the document is one. -/
def variant? (label : String) (form : Form α) : Document → Option α
  | .object [(name, content)] => if name = label then form.read content else none
  | _ => none

/-- An alternative with a label, with its content. -/
def variant (label : String) (form : Form α) (a : α) : Document :=
  .object [(label, form.write a)]

end Form

/-! ### Structures -/

/-- What is given for a field. -/
inductive Given where
  /-- A value. -/
  | value (d : Document)
  /-- Nothing: the object has no such entry. -/
  | absent
  /-- Nothing: the list is too short. -/
  | beyond

/-- Some fields of a structure. -/
structure Fields (α : Type) where
  /-- Their names, in order. -/
  names : List String
  /-- Their values, from what is given for each of them. -/
  read : List Given → Option α
  /-- The documents that their values are written as. -/
  write : α → List Document

namespace Fields

variable {α β : Type}

/-- One field; `missing` says what it is where nothing is given. -/
def one (name : String) (form : Form α) (missing : Given → Option α) : Fields α where
  names := [name]
  read
    | [.value d] => form.read d
    | [given] => missing given
    | _ => none
  write a := [form.write a]

/-- A field that must be given. -/
def required (name : String) (form : Form α) : Fields α :=
  one name form fun _ => none

/-- A field that is none where an object leaves it out. -/
def optional (name : String) (form : Form α) : Fields (Option α) :=
  one name form.optional fun
    | .absent => some none
    | _ => none

/-- A field with a value for where it is left out. -/
def defaulted (name : String) (form : Form α) (fallback : α) : Fields α :=
  one name form fun _ => some fallback

/-- Some fields before others. -/
def and (first : Fields α) (second : Fields β) : Fields (α × β) where
  names := first.names ++ second.names
  read given := do
    let n := first.names.length
    return (← first.read (given.take n), ← second.read (given.drop n))
  write p := first.write p.1 ++ second.write p.2

/-- What the entries of an object give for a name, unless it occurs twice. -/
def given? (entries : List (String × Document)) (name : String) : Option Given :=
  match entries.filter (·.1 = name) with
  | [] => some .absent
  | [(_, d)] => some (.value d)
  | _ => none

/-- **The form of a structure** with these fields. -/
def object (fields : Fields α) : Form α where
  read
    | .object entries => do fields.read (← fields.names.mapM (given? entries))
    | .list items =>
      if items.length ≤ fields.names.length then
        fields.read (items.map .value ++
          List.replicate (fields.names.length - items.length) .beyond)
      else none
    | _ => none
  write a := .object (fields.names.zip (fields.write a))

end Fields

end ReferralForest
