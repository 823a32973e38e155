/-
  HeaderPeer.Network — the networks and the constants that their members agree on.
-/
import HeaderPeer.Frame.Magic
import HeaderPeer.Header

namespace HeaderPeer

/-! ## §1. Networks -/

inductive Network where
  | mainnet
  | testnet
  | regtest
  deriving DecidableEq, Repr

namespace Network

def all : List Network := [mainnet, testnet, regtest]

def name : Network → String
  | mainnet => "mainnet"
  | testnet => "testnet"
  | regtest => "regtest"

def ofName? (name : String) : Option Network := all.find? fun n => n.name = name

/-- The bytes that open every frame. -/
def magic : Network → Magic
  | mainnet => #v[0xf9, 0xbe, 0xb4, 0xd9]
  | testnet => #v[0x0b, 0x11, 0x09, 0x07]
  | regtest => #v[0xfa, 0xbf, 0xb5, 0xda]

/-- Where nodes listen by default. -/
def portNumber : Network → UInt16
  | mainnet => 8333
  | testnet => 18333
  | regtest => 18444

end Network

/-! ## §2. Checkpoints -/

/-- Hashes known to be right, by height, in ascending order of the heights. -/
structure Checkpoints where
  entries : List (Nat × Word256)
  deriving DecidableEq, Repr

namespace Checkpoints

def none : Checkpoints := ⟨[]⟩

/-- The hash that a header at `height` must have. -/
def at? (c : Checkpoints) (height : Nat) : Option Word256 := c.entries.lookup height

/-- Puts an entry into ascending entries; it takes the place of one at the same height. -/
def insertInto (height : Nat) (hash : Word256) : List (Nat × Word256) → List (Nat × Word256)
  | [] => [(height, hash)]
  | (h, x) :: rest =>
    if height < h then (height, hash) :: (h, x) :: rest
    else if height = h then (height, hash) :: rest
    else (h, x) :: insertInto height hash rest

def insert (c : Checkpoints) (height : Nat) (hash : Word256) : Checkpoints :=
  ⟨insertInto height hash c.entries⟩

/-- The checkpoints given by a list, in which the last entry at a height counts. -/
def ofList (entries : List (Nat × Word256)) : Checkpoints :=
  entries.foldl (fun c entry => c.insert entry.1 entry.2) none

end Checkpoints

/-! ## §3. Parameters -/

/-- The constants of one network. -/
structure Params where
  network : Network
  genesis : Header
  maxBlockWeight : UInt64
  /-- The weight of one byte that is no witness data. -/
  witnessScale : UInt64
  maxMoney : Int64
  /-- The easiest work target. -/
  powLimit : Word256
  /-- How many seconds a header may be ahead of the clock. -/
  maxFutureTime : Int64
  minHeaderVersion : Int32
  checkpoints : Checkpoints

namespace Params

/-- How many smallest units make a coin. -/
def coin : Int64 := 100000000

/-- The root over the first transaction, which the networks share. -/
def genesisMerkleRoot : Word256 :=
  0x4a5e1e4baab89f3a32518a88c31bc87f618f76673e2cc77ab2127b7afdeda33b#256

/-- The parameters that the networks share, for a network with the given first header and easiest
target. -/
def base (network : Network) (time : UInt32) (bits : Compact) (nonce : UInt32)
    (powLimit : Word256) : Params where
  network
  genesis := .ofParts .doubleSha256 1 0 genesisMerkleRoot time bits nonce
  maxBlockWeight := 4000000
  witnessScale := 4
  maxMoney := 21000000 * coin
  powLimit
  maxFutureTime := 7200
  minHeaderVersion := 1
  checkpoints := .none

def mainnet : Params :=
  { base .mainnet 1231006505 0x1d00ffff 2083236893 ((BitVec.allOnes 224).setWidth 256) with
    checkpoints := .ofList [
      (11111, 0x0000000069e244f73d78e8fd29ba2fd2ed618bd6fa2ee92559f542fdb26e7c1d#256),
      (33333, 0x000000002dd5588a74784eaa7ab0507a18ad16a236e7b1ce69f00d7ddfb5d0a6#256),
      (74000, 0x0000000000573993a3c9e41ce34471c079dcf5f52a0e824a81e7f953b8661a20#256)] }

def testnet : Params :=
  base .testnet 1296688602 0x1d00ffff 414098458 ((BitVec.allOnes 224).setWidth 256)

def regtest : Params :=
  base .regtest 1296688602 0x207fffff 2 ((BitVec.allOnes 255).setWidth 256)

def ofNetwork : Network → Params
  | .mainnet => mainnet
  | .testnet => testnet
  | .regtest => regtest

def genesisHash (p : Params) : Word256 := p.genesis.hash

/-- The weight of `n` units that are no witness data, capped at the largest 64-bit number. -/
def scaledWeight (p : Params) (n : Nat) : Nat := min (n * p.witnessScale.toNat) (UInt64.size - 1)

/-- Whether `n` units that are no witness data weigh more than a block may. -/
def overweight (p : Params) (n : Nat) : Bool := p.maxBlockWeight.toNat < p.scaledWeight n

/-- The largest size of a block without witness data. -/
def maxBlockBaseSize (p : Params) : UInt64 := p.maxBlockWeight / p.witnessScale

/-- Whether an amount is neither negative nor too large. -/
def moneyRange (p : Params) (value : Int64) : Bool := 0 ≤ value && value ≤ p.maxMoney

end Params

end HeaderPeer
