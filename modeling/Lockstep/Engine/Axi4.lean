import Lockstep.Engine.Relay
/-!
# AXI4 links

The host is the master and the other device the slave. The five channels are relayed wire by wire; a link
without identities has none of the ID signals.
-/

namespace Lockstep.Axi4

/-- The widths that the two ends of a link must agree on. -/
structure Widths where
  data : Nat
  address : Nat
  id : Nat
deriving DecidableEq

def dataOption : WidthOption := { key := "DATA_WIDTH", busKey := "DATA_WIDTH", fallback := some 32 }

def addressOption : WidthOption := { key := "ADDR_WIDTH", busKey := "ADDR_WIDTH", fallback := some 32 }

def idOption : WidthOption := { key := "ID_WIDTH", busKey := "ID_WIDTH", fallback := some 4 }

/-- Data comes in whole bytes and addresses fit 64 bits. -/
def Widths.checked (w : Widths) : Except EngineError Widths :=
  if w.data = 0 ∨ w.data % 8 ≠ 0 then
    .error (.invalidOption dataOption.key (toString w.data) .notWholeBytes)
  else if w.address = 0 ∨ 64 < w.address then
    .error (.invalidOption addressOption.key (toString w.address) .notAddressWidth)
  else .ok w

/-- The widths of a device that announced some options. -/
def widths (device : String) (announced bus : Options) : Except EngineError Widths := do
  let data ← dataOption.resolve device announced bus
  let address ← addressOption.resolve device announced bus
  let id ← idOption.resolve device announced bus
  Widths.checked ⟨data, address, id⟩

/-- The wires of a link: write address, write data, write response, read address, read data and reset. -/
def table (w : Widths) : RelayTable :=
  let toSlave (name : String) (width : Nat) : RelaySignal := .same name width .hostToDevice
  let toMaster (name : String) (width : Nat) : RelaySignal := .same name width .deviceToHost
  .ofList [
    toSlave "AWVALID" 1, toMaster "AWREADY" 1, toSlave "AWID" w.id, toSlave "AWADDR" w.address,
    toSlave "AWLEN" 8, toSlave "AWSIZE" 3, toSlave "AWBURST" 2, toSlave "AWLOCK" 1,
    toSlave "AWCACHE" 4, toSlave "AWPROT" 3, toSlave "AWQOS" 4,
    toSlave "WVALID" 1, toMaster "WREADY" 1, toSlave "WDATA" w.data, toSlave "WSTRB" (w.data / 8),
    toSlave "WLAST" 1,
    toMaster "BVALID" 1, toSlave "BREADY" 1, toMaster "BID" w.id, toMaster "BRESP" 2,
    toSlave "ARVALID" 1, toMaster "ARREADY" 1, toSlave "ARID" w.id, toSlave "ARADDR" w.address,
    toSlave "ARLEN" 8, toSlave "ARSIZE" 3, toSlave "ARBURST" 2, toSlave "ARLOCK" 1,
    toSlave "ARCACHE" 4, toSlave "ARPROT" 3, toSlave "ARQOS" 4,
    toMaster "RVALID" 1, toSlave "RREADY" 1, toMaster "RID" w.id, toMaster "RDATA" w.data,
    toMaster "RRESP" 2, toMaster "RLAST" 1,
    toSlave "ARESETn" 1]

/-- The bus must not give widths that are impossible. -/
def check (bus : String) (options : Options) : Except EngineError Unit :=
  (widths bus .empty options).map fun _ => ()

def driven (device : Device) (announced bus : Options) : Except EngineError Lockstep.Widths :=
  (widths device.name announced bus).map fun w => (table w).drivenBy device.host

/-- The two ends must have resolved the same widths. -/
def connect (host device : Slot) (bus : Options) : Except EngineError (RelayTable × BusNotice) := do
  let m ← widths host.name host.options bus
  let s ← widths device.name device.options bus
  agree dataOption.key (host.name, m.data) (device.name, s.data)
  agree addressOption.key (host.name, m.address) (device.name, s.address)
  agree idOption.key (host.name, m.id) (device.name, s.id)
  return (table m, .axi4Link m.data m.address m.id)

def clockName : String := "ACLK"

end Lockstep.Axi4
