/-!
# TOML Tables

The values of TOML texts, as far as this library tells them apart, and the rules by which tables come
about. A table may be defined once: by a header, by dotted keys, or in braces. A table that only
stands in the path of a header may still get a header of its own later; one that dotted keys have
made can be added to by dotted keys of the same section only, or get tables inside of it.
-/

namespace ReferralForest

namespace Toml

/-- How a table came about. -/
inductive Origin where
  /-- It has a header, or is the whole text. -/
  | header
  /-- It stands in the path of a header. -/
  | path
  /-- It stands in a dotted key. -/
  | dotted
  deriving DecidableEq

end Toml

/-- A value of a TOML text. -/
inductive Toml where
  /-- A text. -/
  | text (value : String)
  /-- A whole number. -/
  | integer (value : Int)
  /-- A truth value, another number, or a date or time. -/
  | other
  /-- A list. -/
  | list (items : List Toml)
  /-- A table in braces, which nothing is ever added to. -/
  | inlined (entries : List (String × Toml))
  /-- A table. -/
  | table (origin : Toml.Origin) (entries : List (String × Toml))
  /-- The tables of several headers in double brackets: the last one, and the others. -/
  | tables (last : List (String × Toml)) (others : List (List (String × Toml)))

namespace Toml

/-- The entries of a table, in the order of definition. -/
abbrev Entries := List (String × Toml)

/-- The value of a key. -/
def Entries.get? (entries : Entries) (key : String) : Option Toml :=
  (entries.find? (·.1 = key)).map (·.2)

/-- Gives a key a value, in its place if it has one. -/
def Entries.set (entries : Entries) (key : String) (value : Toml) : Entries :=
  if entries.any (·.1 = key) then
    entries.map fun e => if e.1 = key then (key, value) else e
  else entries ++ [(key, value)]

/-- Changes the table at the end of a path. Tables that are missing on the way are made, with the
given origin. Dotted keys may not go into a table that has a header. -/
def modifyAt (making : Origin) (change : Origin → Entries → Option Entries) :
    List String → Origin → Entries → Option Entries
  | [], origin, entries => change origin entries
  | key :: path, _, entries => do
    match entries.get? key with
    | none => return entries.set key (.table making (← modifyAt making change path making []))
    | some (.table origin inner) =>
      if making = .dotted ∧ origin = .header then none
      else return entries.set key (.table origin (← modifyAt making change path origin inner))
    | some (.tables last others) =>
      return entries.set key (.tables (← modifyAt making change path .header last) others)
    | some _ => none

/-- Opens the table of a header, which must not be defined yet. -/
def openTable (key : String) (_ : Origin) (entries : Entries) : Option Entries :=
  match entries.get? key with
  | none => some (entries.set key (.table .header []))
  | some (.table .path inner) => some (entries.set key (.table .header inner))
  | some _ => none

/-- Opens one more table of a header in double brackets. -/
def openListed (key : String) (_ : Origin) (entries : Entries) : Option Entries :=
  match entries.get? key with
  | none => some (entries.set key (.tables [] []))
  | some (.tables last others) => some (entries.set key (.tables [] (last :: others)))
  | some _ => none

/-- Gives a key a value. The end of a dotted key lies in a table that dotted keys have made, and
that of a plain key does not. -/
def define (isDotted : Bool) (key : String) (value : Toml) (origin : Origin) (entries : Entries) :
    Option Entries :=
  if isDotted = decide (origin = .dotted) ∧ (entries.get? key).isNone then
    some (entries.set key value)
  else none

/-- Gives a possibly dotted key a value in a table. -/
def assign (path : List String) (key : String) (value : Toml) (origin : Origin)
    (entries : Entries) : Option Entries :=
  modifyAt .dotted (define (!path.isEmpty) key value) path origin entries

end Toml

end ReferralForest
