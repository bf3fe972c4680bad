import ReferralForest.Binary.Word
import ReferralForest.Error
import ReferralForest.Text.Hex

/-!
# Slots

What the store is used for, and where each thing lies. There are four families of slots, told apart
by the first byte of their keys:

* `00 account` — the record of an account;
* `01 length parent length child` — the relation of a referrer to a referral, whose value is a
  marker;
* `02` — the parameters;
* `05 time account` — an entry of the downgrade queue, whose value is a marker. The time takes eight
  bytes, most significant first, so that the order of keys is the order of times.

Each parser accepts the keys of its own family only, and says what is wrong with others.
-/

namespace ReferralForest

/-- A place in the store. -/
inductive Slot where
  /-- The record of an account. -/
  | record (account : AccountId)
  /-- The mark that `child` is a referral of `parent`. -/
  | relation (parent child : AccountId)
  /-- The parameters. -/
  | params
  /-- The mark that the tier of an account is to be lowered at a time. -/
  | downgrade (time : Timestamp) (account : AccountId)
  deriving DecidableEq

/-- The first byte of record keys. -/
def recordFamily : UInt8 := 0x00

/-- The first byte of relation keys. -/
def relationFamily : UInt8 := 0x01

/-- The first byte of the parameters' key. -/
def paramsFamily : UInt8 := 0x02

/-- The first byte of queue keys. -/
def downgradeFamily : UInt8 := 0x05

/-- The value under relation and queue keys. -/
def marker : Value := [0x01]

/-- A time in eight bytes, most significant first. -/
def Timestamp.bytes (t : Timestamp) : List UInt8 :=
  (Binary.little 8 t.seconds.toNat).reverse

/-- The time of eight bytes, most significant first. -/
def Timestamp.ofBytes (bytes : List UInt8) : Timestamp :=
  ⟨UInt64.ofNat (Binary.value bytes.reverse)⟩

/-- The name of an account preceded by its length. -/
def AccountId.sizedBytes (a : AccountId) : List UInt8 :=
  UInt8.ofNat a.bytes.length :: a.bytes

namespace Slot

/-- What the keys of all relations of a referrer begin with. -/
def childrenOf (parent : AccountId) : Key :=
  relationFamily :: parent.sizedBytes

/-- The key of a slot. -/
def key : Slot → Key
  | record account => recordFamily :: account.bytes
  | relation parent child => childrenOf parent ++ child.sizedBytes
  | params => [paramsFamily]
  | downgrade time account => downgradeFamily :: (time.bytes ++ account.bytes)

/-- The first key after all queue keys whose time is not after `now`. -/
def queueEnd (now : Timestamp) : Key :=
  match now.add? 1 with
  | some next => downgradeFamily :: next.bytes
  | none => [downgradeFamily + 1]

/-- The queue entries due at a time. -/
def due (now : Timestamp) : KeyRange :=
  ⟨[downgradeFamily], some (queueEnd now)⟩

/-- The keys of all records. -/
def allRecords : KeyRange := .beginningWith [recordFamily]

/-- The keys of the whole downgrade queue. -/
def allDowngrades : KeyRange := .beginningWith [downgradeFamily]

/-- The account whose record a key is for. -/
def parseRecord (key : Key) : Except Error AccountId :=
  match key with
  | family :: name =>
    if family = recordFamily ∧ name ≠ [] then
      (AccountId.ofBytes name).mapError fun fault => .codec s!"record key: {fault.message}"
    else .error (.codec s!"not a record key: {Hex.list key}")
  | [] => .error (.codec s!"not a record key: {Hex.list key}")

/-- The parts of a relation key as byte strings, or what is wrong with it. -/
def splitRelation (key : Key) : Except String (List UInt8 × List UInt8) :=
  match key with
  | [] => .error "invalid prefix"
  | family :: rest =>
    if family ≠ relationFamily then .error "invalid prefix"
    else match rest with
      | [] => .error "no parent length"
      | size :: rest =>
        if rest.length < size.toNat then .error "truncated parent"
        else match rest.drop size.toNat with
          | [] => .error "no child length"
          | childSize :: child =>
            if child.length ≠ childSize.toNat then .error "child length mismatch"
            else .ok (rest.take size.toNat, child)

/-- The referrer and the referral a relation key is for. -/
def parseRelation (key : Key) : Except Error (AccountId × AccountId) :=
  let read : Except String (AccountId × AccountId) := do
    let (parent, child) ← splitRelation key
    let parent ← (AccountId.ofBytes parent).mapError AccountId.Fault.message
    let child ← (AccountId.ofBytes child).mapError AccountId.Fault.message
    return (parent, child)
  read.mapError fun what => .codec s!"relation key {Hex.list key}: {what}"

/-- The time and the account a queue key is for. -/
def parseDowngrade (key : Key) : Except Error (Timestamp × AccountId) :=
  match key with
  | family :: rest =>
    if family = downgradeFamily ∧ 9 ≤ rest.length then
      match AccountId.ofBytes (rest.drop 8) with
      | .ok account => .ok (.ofBytes (rest.take 8), account)
      | .error fault => .error (.codec s!"downgrade key: {fault.message}")
    else .error (.codec s!"not a downgrade key: {Hex.list key}")
  | [] => .error (.codec s!"not a downgrade key: {Hex.list key}")

/-- What a key is for, if it is the key of a slot. -/
def ofKey? (key : Key) : Option Slot :=
  match key with
  | [] => none
  | family :: rest =>
    if family = recordFamily then (parseRecord key).toOption.map record
    else if family = relationFamily then (parseRelation key).toOption.map fun p => relation p.1 p.2
    else if family = paramsFamily ∧ rest = [] then some params
    else if family = downgradeFamily then
      (parseDowngrade key).toOption.map fun p => downgrade p.1 p.2
    else none

end Slot

end ReferralForest
