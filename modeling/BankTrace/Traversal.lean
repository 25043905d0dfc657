import BankTrace.Event

/-!
# Traversals

A traversal runs through the requests of a trace and ends with the sentinel. It is a position in
four nested loops, so that any number of instructions can be taken from it at a time, and however
long the trace is, nothing of it is made before it is asked for.
-/

namespace BankTrace

/-- The loops of a trace and what their innermost requests have in common. -/
structure Sweep where
  opcode : Opcode
  operandSize : UInt32
  loopOrder : LoopOrder
  rowCount : Nat
  /-- How often each row of each bank is visited. -/
  visitCount : Nat
  banks : List UInt16
  masks : List ChannelMask
deriving DecidableEq, Repr

/-- The counters of the loops, all from zero. -/
structure Counters where
  row : Nat
  visit : Nat
  bank : Nat
  mask : Nat
deriving DecidableEq, Repr

namespace Sweep

/-- Whether no loop is empty, so that there is a first request. -/
def hasRequests (s : Sweep) : Bool :=
  s.rowCount != 0 && s.visitCount != 0 && !s.banks.isEmpty && !s.masks.isEmpty

/-- The request at a position of the loops. -/
def request (s : Sweep) (here : Counters) : Request where
  opcode := s.opcode
  operandSize := s.operandSize
  channels := s.masks.getD here.mask .all
  bank := s.banks.getD here.bank 0
  row := UInt32.ofNat here.row

/-- The counters of the outer two loops one step on, the inner two starting anew. -/
def nextPass? (s : Sweep) (here : Counters) : Option Counters :=
  match s.loopOrder with
  | .rowColumnBank =>
      if here.visit + 1 < s.visitCount then some ⟨here.row, here.visit + 1, 0, 0⟩
      else if here.row + 1 < s.rowCount then some ⟨here.row + 1, 0, 0, 0⟩
      else none
  | .burstGroup =>
      if here.row + 1 < s.rowCount then some ⟨here.row + 1, here.visit, 0, 0⟩
      else if here.visit + 1 < s.visitCount then some ⟨0, here.visit + 1, 0, 0⟩
      else none

/-- The counters one request on: masks change fastest, then banks. -/
def next? (s : Sweep) (here : Counters) : Option Counters :=
  if here.mask + 1 < s.masks.length then some { here with mask := here.mask + 1 }
  else if here.bank + 1 < s.banks.length then some { here with bank := here.bank + 1, mask := 0 }
  else s.nextPass? here

end Sweep

/-- Where a traversal stands. -/
inductive Traversal.Place where
  /-- Before the request with these counters. -/
  | request (here : Counters)
  /-- Behind the last request. -/
  | sentinel
  /-- Behind the sentinel. -/
  | finished
deriving DecidableEq, Repr

structure Traversal where
  sweep : Sweep
  place : Traversal.Place
  /-- The number of requests from beginning to end. -/
  dataLength : Nat
deriving DecidableEq, Repr

namespace Traversal

/-- A traversal before its first instruction. -/
def ofSweep (s : Sweep) (dataLength : Nat) : Traversal :=
  ⟨s, if s.hasRequests then .request ⟨0, 0, 0, 0⟩ else .sentinel, dataLength⟩

/-- The traversal of a valid configuration. -/
def ofConfig (c : Config) : Except Error Traversal := do
  (c.validate).mapError .config
  let dataLength ← match c.dataLineCount? with
    | some count => pure count
    | none => throw (.config .traceTooLarge)
  let masks ← c.channelMode.masks.mapError .request
  let sweep : Sweep :=
    { opcode := c.opcode
      operandSize := c.operandSize
      loopOrder := c.loopOrder
      rowCount := c.rowCount.toNat
      visitCount := c.visitCount
      banks := c.bankOrder
      masks := masks }
  pure (ofSweep sweep dataLength)

/-- The next instruction and the traversal behind it. -/
def next? (t : Traversal) : Option (Instruction × Traversal) :=
  match t.place with
  | .request here =>
      let place := match t.sweep.next? here with
        | some after => .request after
        | none => .sentinel
      some (.data (t.sweep.request here), { t with place })
  | .sentinel => some (.eoc, { t with place := .finished })
  | .finished => none

/-- Up to `count` further instructions, behind those already taken. -/
def takeOnto (taken : Array Instruction) : Nat → Traversal → Array Instruction × Traversal
  | 0, t => (taken, t)
  | count + 1, t =>
      match t.next? with
      | none => (taken, t)
      | some (instruction, rest) => takeOnto (taken.push instruction) count rest

/-- Up to `count` further instructions and the traversal behind them. -/
def take (count : Nat) (t : Traversal) : List Instruction × Traversal :=
  let (taken, rest) := takeOnto #[] count t
  (taken.toList, rest)

/-- The first two neighbours in the same bank group. -/
def sharedGroup? : List UInt16 → Option (UInt16 × UInt16)
  | first :: second :: rest =>
      if bankGroup first = bankGroup second then some (first, second)
      else sharedGroup? (second :: rest)
  | _ => none

/-- What is reported when the traversal of a configuration begins. -/
def announcement (c : Config) : List Event :=
  match c.channelMode.masks with
  | .error _ => []
  | .ok masks =>
      [.traversing c.loopOrder c.rowCount.toNat c.burstCount.toNat c.bankOrder.length masks.length,
        .groupSpread (c.bankOrder.map bankGroup)] ++
      ((sharedGroup? c.bankOrder).map fun (first, second) => .groupShared first second).toList

end Traversal

end BankTrace
