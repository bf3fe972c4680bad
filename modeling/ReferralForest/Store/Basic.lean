import ReferralForest.Store.KeyRange

/-!
# Stores

An ordered key-value store with nested branches. At the bottom lies a sorted map under a policy
that says which calls it admits: all of them, a limited number, or those whose keys have a
storable size. Above it lie branches. A branch buffers writes; reads look through the open branches
from the innermost outwards and then at the bottom, and a commit hands the buffered writes of the
innermost branch, in key order, to the level below as one batch.

Every call answers and leaves a store, also when it fails: a refused call still counts.

## Main definitions

* `Store` — the bottom and the open branches.
* `Store.get`, `Store.write`, `Store.range`, `Store.apply` — the calls.
* `Store.branch`, `Store.commit`, `Store.discard` — opening and closing branches.
* `Store.view` — the plain map a store stands for.
-/

namespace ReferralForest

namespace Store

/-- Why a store refuses a call. -/
inductive Fault where
  /-- Something looked for is not there. -/
  | notFound (what : String)
  /-- The medium refuses. -/
  | backend (reason : String)
  /-- A value cannot be written or read. -/
  | serialization (reason : String)
  /-- The stored data contradict each other. -/
  | corruption (reason : String)
  /-- The limit on the number of calls is reached. -/
  | exhausted (reason : String)
  deriving DecidableEq

/-- The wording of a fault. -/
def Fault.message : Fault → String
  | .notFound what => s!"key not found: {what}"
  | .backend reason => s!"storage backend error: {reason}"
  | .serialization reason => s!"serialization error: {reason}"
  | .corruption reason => s!"database is corrupted: {reason}"
  | .exhausted reason => s!"resource limit exhausted: {reason}"

/-- The refusal of a call beyond the limit, when `used` calls were made before it. -/
def Fault.outOfGas (used : Nat) : Fault :=
  .exhausted s!"out of gas after {used} operations"

/-- The refusal of a key of an unstorable size. -/
def Fault.keySize : Fault :=
  .backend "LMDB error: MDB_BAD_VALSIZE: Unsupported size of key/DB name/data, or wrong DUPFIXED size"

/-- The longest storable key, for a store that limits them. -/
def maxKeyLength : Nat := 511

/-- A write: a value for a key, or none to delete the key. -/
abbrev Write := Key × Option Value

/-- What a call does to the bottom of a store, as far as its policy cares. -/
inductive Access where
  /-- Looks a key up. -/
  | read (key : Key)
  /-- Puts or deletes a key. -/
  | write (write : Write)
  /-- Lists a range. -/
  | list

/-- Which calls the bottom of a store admits. -/
inductive Policy where
  /-- All of them. -/
  | free
  /-- The first `limit` ones; `used` were made, refused ones included. -/
  | metered (limit used : Nat)
  /-- Those whose key is not empty, and not too long where it is to be stored. -/
  | keySized
  deriving DecidableEq

/-- Whether a call is admitted, and the policy after it. -/
def Policy.admit (access : Access) : Policy → Except Fault Unit × Policy
  | .free => (.ok (), .free)
  | .metered limit used =>
    (if used < limit then .ok () else .error (.outOfGas used), .metered limit (used + 1))
  | .keySized =>
    let fits : Bool := match access with
      | .read key => key ≠ []
      | .write (key, some _) => key ≠ [] ∧ key.length ≤ maxKeyLength
      | .write (key, none) => key ≠ []
      | .list => true
    (if fits then .ok () else .error .keySize, .keySized)

/-- A write carried out on a map. -/
def put (m : SortedMap Key Value) (write : Write) : SortedMap Key Value :=
  match write.2 with
  | some value => m.insert write.1 value
  | none => m.erase write.1

/-- The buffered writes of a branch: for each key written, what it was last given. -/
abbrev Overlay := SortedMap Key (Option Value)

/-- The map under a branch as seen through its buffered writes. -/
def Overlay.over (overlay : Overlay) (m : SortedMap Key Value) : SortedMap Key Value :=
  overlay.toList.foldl put m

/-- The bottom of a store. -/
structure Base where
  /-- What is stored. -/
  entries : SortedMap Key Value
  /-- Which calls are admitted. -/
  policy : Policy
  deriving DecidableEq

namespace Base

/-- Makes a call if the policy admits it. -/
def access {α : Type} (call : Access) (run : SortedMap Key Value → α × SortedMap Key Value)
    (base : Base) : Except Fault α × Base :=
  match base.policy.admit call with
  | (.ok (), policy) =>
    let (answer, entries) := run base.entries
    (.ok answer, ⟨entries, policy⟩)
  | (.error fault, policy) => (.error fault, ⟨base.entries, policy⟩)

/-- The value at a key. -/
def get (key : Key) : Base → Except Fault (Option Value) × Base :=
  access (.read key) fun m => (m.get? key, m)

/-- Carries out one write. -/
def write (w : Write) : Base → Except Fault Unit × Base :=
  access (.write w) fun m => ((), put m w)

/-- The part of the map in a range. -/
def range (range : KeyRange) : Base → Except Fault (SortedMap Key Value) × Base :=
  access .list fun m => (m.filter fun key _ => range.contains key, m)

/-- Carries out writes one by one, up to the first that is refused. -/
def writeEach : List Write → Base → Except Fault Unit × Base
  | [], base => (.ok (), base)
  | w :: rest, base =>
    match base.write w with
    | (.ok (), base) => writeEach rest base
    | refused => refused

/-- Carries out a batch. A store that limits the size of keys refuses the whole batch when it
refuses one write of it; a metered one goes as far as its limit. -/
def apply (writes : List Write) (base : Base) : Except Fault Unit × Base :=
  match base.policy, writeEach writes base with
  | .keySized, (.error fault, _) => (.error fault, base)
  | _, done => done

end Base

end Store

/-- An ordered key-value store with nested branches. -/
structure Store where
  /-- The bottom. -/
  base : Store.Base
  /-- The buffered writes of the open branches, innermost first. -/
  branches : List Store.Overlay
  deriving DecidableEq

namespace Store

/-- A store without entries or branches. -/
def ofPolicy (policy : Policy) : Store := ⟨⟨.empty, policy⟩, []⟩

/-- An empty store that admits every call. -/
def empty : Store := ofPolicy .free

/-- **The map a store stands for**: its bottom seen through all open branches. -/
def view (store : Store) : SortedMap Key Value :=
  store.branches.foldr Overlay.over store.base.entries

/-- The number of keys with a value. Asking for it is no call. -/
def size (store : Store) : Nat := store.view.size

/-- Makes a call on the bottom. -/
def onBase {α : Type} (call : Base → Except Fault α × Base) (store : Store) :
    Except Fault α × Store :=
  let (answer, base) := call store.base
  (answer, { store with base })

/-- The value at a key. A key that an open branch has written costs no call. -/
def get (key : Key) (store : Store) : Except Fault (Option Value) × Store :=
  match store.branches.findSome? (·.get? key) with
  | some buffered => (.ok buffered, store)
  | none => store.onBase (Base.get key)

/-- Carries out one write: the innermost branch buffers it, and only a store without branches
touches its bottom. -/
def write (w : Write) (store : Store) : Except Fault Unit × Store :=
  match store.branches with
  | top :: below => (.ok (), { store with branches := top.insert w.1 w.2 :: below })
  | [] => store.onBase (Base.write w)

/-- The entries of a range in key order. Through a branch, an empty range costs no call. -/
def range (range : KeyRange) (store : Store) : Except Fault (List (Key × Value)) × Store :=
  if !store.branches.isEmpty && range.isEmpty then (.ok [], store)
  else
    match store.onBase (Base.range range) with
    | (.ok found, store) =>
      let within (overlay : Overlay) : Overlay := overlay.filter fun key _ => range.contains key
      (.ok (store.branches.foldr (fun overlay m => (within overlay).over m) found).toList, store)
    | (.error fault, store) => (.error fault, store)

/-- Carries out a batch on the innermost level. -/
def apply (writes : List Write) (store : Store) : Except Fault Unit × Store :=
  match store.branches with
  | top :: below =>
    (.ok (), { store with branches := writes.foldl (fun o w => o.insert w.1 w.2) top :: below })
  | [] => store.onBase (Base.apply writes)

/-- Opens a branch. -/
def branch (store : Store) : Store :=
  { store with branches := .empty :: store.branches }

/-- Closes the innermost branch and drops its writes. -/
def discard (store : Store) : Store :=
  { store with branches := store.branches.tail }

/-- Closes the innermost branch and hands its writes to the level below, which may refuse them:
they are lost then. -/
def commit (store : Store) : Except Fault Unit × Store :=
  match store.branches with
  | top :: below => apply top.toList { store with branches := below }
  | [] => (.ok (), store)

/-- The number of keys written in the innermost branch. -/
def pending (store : Store) : Nat :=
  match store.branches with
  | top :: _ => top.size
  | [] => 0

/-- The number of calls made on a metered store since its limit was set. -/
def used? (store : Store) : Option Nat :=
  match store.base.policy with
  | .metered _ used => some used
  | _ => none

/-- Sets a new limit on the calls of a metered store and starts counting again. -/
def setLimit (limit : Nat) (store : Store) : Store :=
  match store.base.policy with
  | .metered _ _ => { store with base := { store.base with policy := .metered limit 0 } }
  | _ => store

end Store

end ReferralForest
