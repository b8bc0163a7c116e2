import Lockstep.Model.Drive
/-!
# AXI4 device models

A master that issues single-beat transfers of 32-bit words, and a memory behind a slave port that is always
ready to accept. Both assume the default widths of a link.
-/

namespace Lockstep.Axi4

def modelDataBits : Nat := 32

def modelAddressBits : Nat := 32

def modelIdBits : Nat := 4

/-- The size code of a transfer of four bytes. -/
def sizeFourBytes : Nat := 2

/-- The burst code of incrementing addresses. -/
def burstIncrementing : Nat := 1

/-! ### Master -/

/-- A transfer that a master is asked for. -/
inductive Transfer where
  | write (address data : Nat)
  | read (address : Nat)
deriving DecidableEq

/-- How far a transfer has got. -/
inductive Progress where
  | idle
  | writing (addressSent dataSent : Bool)
  | reading (addressSent : Bool)
deriving DecidableEq

structure Master where
  drive : Signals
  progress : Progress
deriving DecidableEq

namespace Master

def fresh : Master where
  drive := (["AWVALID", "WVALID", "BREADY", "ARVALID", "RREADY"].foldl (fun s name => s.setBit name .zero)
    (Signals.setBit .empty "ARESETn" .one))
  progress := .idle

def start (m : Master) : Transfer → Master
  | .write address data => {
      drive := ((((((((((m.drive.setBit "AWVALID" .one).setNat "AWADDR" address modelAddressBits).setNat
        "AWID" 0 modelIdBits).setNat "AWLEN" 0 8).setNat "AWSIZE" sizeFourBytes 3).setNat
        "AWBURST" burstIncrementing 2).setBit "WVALID" .one).setNat "WDATA" data modelDataBits).setNat
        "WSTRB" 15 (modelDataBits / 8)).setBit "WLAST" .one).setBit "BREADY" .one
      progress := .writing false false }
  | .read address => {
      drive := ((((((m.drive.setBit "ARVALID" .one).setNat "ARADDR" address modelAddressBits).setNat
        "ARID" 0 modelIdBits).setNat "ARLEN" 0 8).setNat "ARSIZE" sizeFourBytes 3).setNat
        "ARBURST" burstIncrementing 2).setBit "RREADY" .one
      progress := .reading false }

/-- Takes a valid signal back once the other side is ready for it. -/
def handOver (seen : Signals) (valid ready : String) (sent : Bool) (drive : Signals) : Bool × Signals :=
  if !sent && seen.bit ready = .one then (true, drive.setBit valid .zero) else (sent, drive)

/-- A rising edge. The number is the result of the transfer that it completes. -/
def edge (seen : Signals) (m : Master) : Except ClientError (Master × Option Nat) :=
  match m.progress with
  | .idle => .ok (m, none)
  | .writing addressSent dataSent =>
    let (addressSent, drive) := handOver seen "AWVALID" "AWREADY" addressSent m.drive
    let (dataSent, drive) := handOver seen "WVALID" "WREADY" dataSent drive
    if seen.bit "BVALID" = .one then
      (seen.number "BRESP").map fun response => (⟨drive.setBit "BREADY" .zero, .idle⟩, some response)
    else .ok (⟨drive, .writing addressSent dataSent⟩, none)
  | .reading addressSent =>
    let (addressSent, drive) := handOver seen "ARVALID" "ARREADY" addressSent m.drive
    if seen.bit "RVALID" = .one then
      (seen.number "RDATA").map fun data => (⟨drive.setBit "RREADY" .zero, .idle⟩, some (wordOf data))
    else .ok (⟨drive, .reading addressSent⟩, none)

end Master

/-! ### Memory -/

structure Memory where
  drive : Signals
  /-- The words that have been written, by address. -/
  words : SortedMap Nat Nat
  /-- Address and identity of a write whose data has not been stored. -/
  writeAddress : Option (Nat × Nat)
  writeData : Option Nat
  /-- A write response is on the wires. -/
  responding : Bool
  /-- Read data is on the wires. -/
  reading : Bool
deriving DecidableEq

namespace Memory

def fresh : Memory where
  drive := ["BVALID", "RVALID", "RLAST"].foldl (fun s name => s.setBit name .zero)
    (["AWREADY", "WREADY", "ARREADY"].foldl (fun s name => s.setBit name .one) (.empty : Signals))
  words := .empty
  writeAddress := none
  writeData := none
  responding := false
  reading := false

/-- Takes a response or read data back once the master has taken it. -/
def retract (seen : Signals) (m : Memory) : Memory :=
  let m := if m.responding && seen.bit "BREADY" = .one then
    { m with drive := m.drive.setBit "BVALID" .zero, responding := false } else m
  if m.reading && seen.bit "RREADY" = .one then
    { m with drive := (m.drive.setBit "RVALID" .zero).setBit "RLAST" .zero, reading := false } else m

def takeAddress (seen : Signals) (m : Memory) : Except ClientError Memory :=
  if seen.bit "AWVALID" = .one then do
    let address ← seen.number "AWADDR"
    let id ← seen.number "AWID"
    return { m with writeAddress := some (address, id) }
  else .ok m

def takeData (seen : Signals) (m : Memory) : Except ClientError Memory :=
  if seen.bit "WVALID" = .one then do
    let data ← seen.number "WDATA"
    return { m with writeData := some (wordOf data) }
  else .ok m

/-- Stores a write that has both parts, unless a response is still on the wires. -/
def store (m : Memory) : Memory :=
  match m.responding, m.writeAddress, m.writeData with
  | false, some (address, id), some data =>
    { m with
      words := m.words.insert address data
      drive := ((m.drive.setBit "BVALID" .one).setNat "BID" id modelIdBits).setNat "BRESP" 0 2
      writeAddress := none
      writeData := none
      responding := true }
  | _, _, _ => m

/-- Answers a read, unless the data of another one is still on the wires. -/
def answer (seen : Signals) (m : Memory) : Except ClientError Memory :=
  if !m.reading && seen.bit "ARVALID" = .one then do
    let address ← seen.number "ARADDR"
    let id ← seen.number "ARID"
    let data := (m.words.get? address).getD 0
    return { m with
      drive := ((((m.drive.setBit "RVALID" .one).setNat "RDATA" data modelDataBits).setNat
        "RID" id modelIdBits).setNat "RRESP" 0 2).setBit "RLAST" .one
      reading := true }
  else .ok m

def edge (seen : Signals) (m : Memory) : Except ClientError Memory := do
  let m ← (m.retract seen).takeAddress seen
  let m ← m.takeData seen
  m.store.answer seen

end Memory

end Lockstep.Axi4
