import ReferralForest.Program.Records
import ReferralForest.Text.Quoted

/-!
# The Host

The modules around the engine, as far as it needs them: a codec that knows addresses, a bank, the
name of the bonded denomination, the listeners to events, the authority over parameters, and the
name of the account fees are burned from. An engine's operations take the host as an argument and
use nothing else.

## Main definitions

* `Host` — the modules around the engine.
* `AddressCodec.plain`, `AddressCodec.tagged` — codecs for which addresses are texts.
* `Bank.recording`, `Bank.offline` — banks that write down transfers, or refuse them.
* `Listener.recording` — a listener that notes its calls.
-/

namespace ReferralForest

/-- How addresses are written and read. Either way can be refused, with a reason. -/
structure AddressCodec where
  /-- The bytes of a written address. -/
  toBytes : String → Except String (List UInt8)
  /-- The written form of an address. -/
  toText : List UInt8 → Except String String

namespace AddressCodec

/-- The reason for refusing an empty address. -/
def emptyReason : String := "empty address string is not allowed"

/-- The text of UTF-8 bytes. -/
def utf8Text (bytes : List UInt8) : Except String String :=
  (Utf8.decode bytes).mapError Utf8.Fault.message

/-- Addresses are texts that go on after the given beginning. -/
def plain (beginning : String) : AddressCodec where
  toBytes text :=
    if text.isEmpty then .error emptyReason
    else if (utf8Bytes beginning).isPrefixOf (utf8Bytes text) ∧ text ≠ beginning then
      .ok (utf8Bytes text)
    else .error (s!"address {Text.quoted text} does not carry " ++
      s!"prefix {Text.quoted beginning}")
  toText := utf8Text

/-- Addresses are texts that begin with the tag, if there is one. -/
def tagged (tag : Option String) : AddressCodec where
  toBytes text :=
    if text.isEmpty then .error emptyReason
    else match tag with
      | some tag =>
        if (utf8Bytes tag).isPrefixOf (utf8Bytes text) then .ok (utf8Bytes text)
        else .error s!"invalid address prefix: expected {tag}"
      | none => .ok (utf8Bytes text)
  toText := utf8Text

end AddressCodec

/-- A bank, seen as its refusals: the reason for which it refuses a transfer, if it does. -/
structure Bank where
  /-- Why a transfer is refused. -/
  refusal? : Transfer → Option String

/-- A bank that accepts every transfer, or refuses every one for the same reason. -/
def Bank.recording (failure : Option String) : Bank := ⟨fun _ => failure⟩

/-- What a transfer is called in the refusals of a missing bank. -/
def Transfer.name : Transfer → String
  | .toModule .. => "send to module"
  | .burn .. => "burn"
  | .payOut .. => "multi-send"

/-- The place of a bank that is not there. -/
def Bank.offline : Bank :=
  ⟨fun transfer => some s!"{transfer.name}: no bank available in offline mode"⟩

/-- What is run when an event is announced. -/
abbrev Listener := AccountId → Program Unit

/-- A listener that notes each call, and fails then if it is given an error to fail with. It ignores
all accounts but the one it is for, if there is such a one; asked to look, it looks the record of the
account up first. -/
def Listener.recording (listener : Nat) (event : Event) (target : Option AccountId) (looks : Bool)
    (failure : Option Error) : Listener := fun account =>
  if target.all (· = account) then do
    let seen ← if looks then some <$> Program.record? account else pure none
    Program.tell (.hearing ⟨listener, event, account, seen⟩)
    match failure with
    | some e => .fail e
    | none => pure ()
  else pure ()

/-- The modules around the engine. -/
structure Host where
  /-- How addresses are written. -/
  codec : AddressCodec
  /-- Who moves coins. -/
  bank : Bank
  /-- The denomination that is staked. -/
  bondDenom : String
  /-- The listeners to each event, in the order in which they were registered. -/
  listeners : List (Event × Listener)
  /-- The account that may change parameters. -/
  authority : AccountId
  /-- The module whose account coins are burned from. -/
  moduleAccount : String

namespace Host

/-- The module account of an engine nobody has configured. -/
def defaultModuleAccount : String := "referral"

/-- The number of listeners to an event. -/
def listenerCount (host : Host) (event : Event) : Nat :=
  (host.listeners.filter (·.1 = event)).length

/-- The account of an address that comes from outside. The codec decides first whether it is one. -/
def parseAddress (host : Host) (text : String) : Except Error AccountId :=
  match host.codec.toBytes text with
  | .error reason => .error (.invalidAddress s!"{text}: {reason}")
  | .ok _ => (AccountId.parse text).mapError fun fault => .invalidAddress fault.message

/-- The bytes of an account's address. -/
def addressOf (host : Host) (account : AccountId) : Except Error (List UInt8) :=
  (host.codec.toBytes account.text).mapError .invalidAddress

/-- Asks the bank for a transfer. -/
def transfer (host : Host) (t : Transfer) : Program Unit :=
  match host.bank.refusal? t with
  | some reason => .fail (.bank reason)
  | none => Program.tell (.transfer t)

/-- Calls listeners one after another, up to the first that fails. -/
def callAll : List (Event × Listener) → AccountId → Program Unit
  | [], _ => pure ()
  | (_, listener) :: rest, account => do
    listener account
    callAll rest account

/-- Announces an event about an account to its listeners. -/
def announce (host : Host) (target : Callback) : Program Unit :=
  (callAll (host.listeners.filter (·.1 = target.event)) target.account).mapError
    (Error.inCallback target)

end Host

end ReferralForest
