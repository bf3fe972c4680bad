import ReferralForest.Config.LogFormat
import ReferralForest.Host
import ReferralForest.Toml.Parser
import ReferralForest.Toml.Printer

/-!
# Configuration

The settings of the offline tool, and how a TOML text gives them. A setting that the text leaves out
keeps its default; keys that are no settings are ignored.
-/

namespace ReferralForest

/-- The settings of the offline tool. -/
structure Config where
  /-- The directory of the store. -/
  dataDir : String
  /-- The greatest size of the store in units of 2 to the 20 bytes. -/
  mapSize : Nat
  /-- Which log lines are written. -/
  logLevel : String
  /-- The shape of log lines. -/
  logFormat : LogFormat
  /-- The account that may change parameters. -/
  authority : String
  /-- The module whose account coins are burned from. -/
  moduleAccount : String
  /-- The denomination that is staked. -/
  bondDenom : String
  /-- What addresses begin with. -/
  addressBeginning : String
  deriving DecidableEq

namespace Config

/-- The settings of a tool nobody has configured. -/
def default : Config where
  dataDir := "./referral_data"
  mapSize := 1024
  logLevel := "info"
  logFormat := .human
  authority := "gov"
  moduleAccount := Host.defaultModuleAccount
  bondDenom := "uaxm"
  addressBeginning := ""

/-- The greatest size of the store in bytes, as far as a word can say. -/
def mapBytes (config : Config) : Nat := min (config.mapSize * 0x100000) (UInt64.size - 1)

/-- A setting that is a text. -/
def textOf? : Toml → Option String
  | .text t => some t
  | _ => none

/-- A setting that is a size. -/
def sizeOf? : Toml → Option Nat
  | .integer n => if 0 ≤ n then some n.toNat else none
  | _ => none

/-- Whether a value holds nothing. -/
def isHollow : Toml → Bool
  | .list items => items.isEmpty
  | .inlined entries | .table _ entries => entries.isEmpty
  | _ => false

/-- A setting that is a log format: its name, or a table whose only key is the name and has no
content. -/
def logFormatOf? : Toml → Option LogFormat
  | .text t => LogFormat.ofName? t
  | .inlined [(name, content)] | .table _ [(name, content)] =>
    if isHollow content then LogFormat.ofName? name else none
  | _ => none

/-- A setting of a table, or its default if the table leaves it out. -/
def setting {α : Type} (entries : Toml.Entries) (key : String) (read : Toml → Option α)
    (fallback : α) : Option α :=
  match entries.get? key with
  | some value => read value
  | none => some fallback

/-- The settings of a table. -/
def ofEntries (entries : Toml.Entries) : Option Config := do
  return {
    dataDir := ← setting entries "data_dir" textOf? default.dataDir
    mapSize := ← setting entries "map_size_mb" sizeOf? default.mapSize
    logLevel := ← setting entries "log_level" textOf? default.logLevel
    logFormat := ← setting entries "log_format" logFormatOf? default.logFormat
    authority := ← setting entries "authority" textOf? default.authority
    moduleAccount := ← setting entries "module_account" textOf? default.moduleAccount
    bondDenom := ← setting entries "bond_denom" textOf? default.bondDenom
    addressBeginning := ← setting entries "address_prefix" textOf? default.addressBeginning }

/-- **The settings a TOML text gives**, if it is one and they have the right types. -/
def parse (text : String) : Option Config := (Toml.parse text).bind ofEntries

/-- **The settings as a TOML text.** -/
def toml (config : Config) : String :=
  String.join [
    Toml.keyLine "data_dir" (Toml.quotedText config.dataDir),
    Toml.keyLine "map_size_mb" (toString config.mapSize),
    Toml.keyLine "log_level" (Toml.quotedText config.logLevel),
    Toml.keyLine "log_format" (Toml.quotedText config.logFormat.name),
    Toml.keyLine "authority" (Toml.quotedText config.authority),
    Toml.keyLine "module_account" (Toml.quotedText config.moduleAccount),
    Toml.keyLine "bond_denom" (Toml.quotedText config.bondDenom),
    Toml.keyLine "address_prefix" (Toml.quotedText config.addressBeginning)]

end Config

end ReferralForest
