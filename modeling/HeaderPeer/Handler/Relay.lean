/-
  HeaderPeer.Handler.Relay — headers, blocks and transactions that a peer passes on.

  Headers are brought to the worker, which judges them later.  Blocks and transactions are judged at
  once, by the rules that need nothing but themselves, and are not kept.
-/
import HeaderPeer.Handler.Basic

namespace HeaderPeer.Handler

/-- Brings a list of headers to the worker as one batch. -/
def submitHeaders (items : List Header) : Act Unit := do
  if Protocol.maxHeaders < items.length then .offend (.manyHeaders items.length)
  let x ← get
  match x.worker.submit { headers := items, peer := x.peer.name } with
  | .ok worker => set { x with worker }
  | .error cause => throw (.closed cause)

/-- The handler that brings headers to the worker. -/
def headers : Handler where
  name := "headers"
  interests := [.headers]
  handle _ m := do
    match m with
    | .headers items => submitHeaders items
    | _ => pure ()
    return []

/-- Judges a block by the given rules. -/
def judgeBlock (rules : List BlockRule) (params : Params) (hasher : Hasher) (b : Block) :
    Act Unit :=
  match BlockTrial.check rules { block := b, params, hasher } with
  | .ok () => return
  | .error fault => .offend (.invalidBlock b.header.hash fault)

def judgeTx (params : Params) (tx : Tx) : Act Unit :=
  match tx.check params with
  | .ok () => return
  | .error fault => .offend (.invalidTx tx.txid fault)

/-- The handler that judges blocks and transactions. -/
def blocks (rules : List BlockRule) (params : Params) (hasher : Hasher) : Handler where
  name := "blocks"
  interests := [.block, .tx]
  handle _ m := do
    match m with
    | .block b => judgeBlock rules params hasher b
    | .tx tx => judgeTx params tx
    | _ => pure ()
    return []

end HeaderPeer.Handler
