/-!
# Documents

The values of JSON texts, as far as this library reads and writes them: whole numbers, well formed
texts, truth values, null, lists and objects. An object is the list of its entries in the order in
which they are written; a name may occur twice.

A text may hold other values, too: numbers with a fraction or an exponent, and texts with half of a
surrogate pair. Nothing here reads them, so they are all the same `unreadable` value; they may stand
where a reader looks at nothing.
-/

namespace ReferralForest

/-- The value of a JSON text. -/
inductive Document where
  /-- The value `null`. -/
  | null
  /-- A truth value. -/
  | bool (value : Bool)
  /-- A whole number. -/
  | integer (value : Int)
  /-- A text. -/
  | text (value : String)
  /-- Several values in order. -/
  | list (items : List Document)
  /-- Named values in order. -/
  | object (entries : List (String × Document))
  /-- A value that nothing here reads. -/
  | unreadable

namespace Document

/-- Puts an entry of an object before the first one with a greater name. -/
def insertEntry (name : String) (d : Document) : List (String × Document) → List (String × Document)
  | [] => [(name, d)]
  | (name', d') :: rest =>
    if name < name' then (name, d) :: (name', d') :: rest
    else (name', d') :: insertEntry name d rest

mutual

/-- The document with the entries of all objects in the order of their names. -/
def sorted : Document → Document
  | list items => list (sortedItems items)
  | object entries => object (sortedEntries entries)
  | d => d

/-- The items of a list, sorted inside. -/
def sortedItems : List Document → List Document
  | [] => []
  | d :: rest => sorted d :: sortedItems rest

/-- The entries of an object, sorted inside and by name. -/
def sortedEntries : List (String × Document) → List (String × Document)
  | [] => []
  | (name, d) :: rest => insertEntry name (sorted d) (sortedEntries rest)

end

end Document

end ReferralForest
