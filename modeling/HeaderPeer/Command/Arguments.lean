/-
  HeaderPeer.Command.Arguments — the words of a command line.

  Options that hold for every command stand before it, each at most once.
-/
import HeaderPeer.Network

namespace HeaderPeer

/-- A command as it is written. -/
inductive CommandWord where
  | genesis
  | decode (hex : String)
  | replay (path : String)
  | settings
  deriving DecidableEq, Repr

/-- What a command line asks for. -/
structure Arguments where
  /-- Where the settings are, if not as usual. -/
  settingsPath : Option String
  /-- The network that takes the place of the one in the settings. -/
  network : Option Network
  command : CommandWord
  deriving DecidableEq, Repr

namespace Arguments

/-- What is known after some of the words. -/
structure Partial where
  settingsPath : Option String
  network : Option Network
  deriving DecidableEq, Repr

/-- Reads the words of a command. -/
def command? : List String → Option CommandWord
  | ["genesis"] => some .genesis
  | ["config"] => some .settings
  | ["decode", hex] => some (.decode hex)
  | ["replay", "--input", path] => some (.replay path)
  | ["replay", "-i", path] => some (.replay path)
  | _ => none

/-- Reads options up to the first word that is none, and the command from there. -/
def parseFrom (p : Partial) : List String → Option Arguments
  | word :: value :: rest =>
    if word = "--config" ∨ word = "-c" then
      if p.settingsPath.isSome then none
      else parseFrom { p with settingsPath := some value } rest
    else if word = "--network" ∨ word = "-n" then
      if p.network.isSome then none
      else
        match Network.ofName? value with
        | some network => parseFrom { p with network := some network } rest
        | none => none
    else (command? (word :: value :: rest)).map fun command => ⟨p.settingsPath, p.network, command⟩
  | words => (command? words).map fun command => ⟨p.settingsPath, p.network, command⟩

/-- What the words ask for, if they are a command line. -/
def parse (words : List String) : Option Arguments := parseFrom ⟨none, none⟩ words

/-- The text shown when the words are no command line. -/
def usage : String :=
  "usage: [--config FILE] [--network mainnet|testnet|regtest] COMMAND\n\n"
    ++ "commands:\n"
    ++ "  genesis               show the genesis header of the network\n"
    ++ "  decode HEX            decode wire frames given in hexadecimal\n"
    ++ "  replay --input FILE   replay a capture of wire frames\n"
    ++ "  config                show the settings"

end Arguments

end HeaderPeer
