import Lockstep.Engine.Relay
/-!
# PCIe packet streams

A PCIe link carries packets as streams between a root port, the host, and an endpoint core. The packets pass
through as they are.
-/

namespace Lockstep.PcieTlp

def widthOption : WidthOption := { key := "DATA_WIDTH", busKey := "DATA_WIDTH", fallback := some 64 }

/-- The width of the streams of a device that announced some options. -/
def width (device : String) (announced bus : Options) : Except EngineError Nat := do
  let w ← widthOption.resolve device announced bus
  if w = 64 ∨ w = 128 ∨ w = 256 then return w
  else .error (.invalidOption widthOption.key (toString w) .notStreamWidth)

/-- The wires of an endpoint core: received packets, transmitted packets and the state of the link. -/
def table (w : Nat) : RelayTable :=
  let toEndpoint (name : String) (width : Nat) : RelaySignal := .same name width .hostToDevice
  let toRoot (name : String) (width : Nat) : RelaySignal := .same name width .deviceToHost
  .ofList [
    toEndpoint "m_axis_rx_tdata" w, toEndpoint "m_axis_rx_tkeep" (w / 8), toEndpoint "m_axis_rx_tlast" 1,
    toEndpoint "m_axis_rx_tvalid" 1, toEndpoint "m_axis_rx_tuser" 22, toRoot "m_axis_rx_tready" 1,
    toRoot "s_axis_tx_tdata" w, toRoot "s_axis_tx_tkeep" (w / 8), toRoot "s_axis_tx_tlast" 1,
    toRoot "s_axis_tx_tvalid" 1, toRoot "s_axis_tx_tuser" 4, toEndpoint "s_axis_tx_tready" 1,
    toEndpoint "user_reset" 1, toEndpoint "user_lnk_up" 1, toEndpoint "tx_buf_av" 6]

/-- The bus must not give an impossible width. -/
def check (bus : String) (options : Options) : Except EngineError Unit :=
  (width bus .empty options).map fun _ => ()

def driven (device : Device) (announced bus : Options) : Except EngineError Widths :=
  (width device.name announced bus).map fun w => (table w).drivenBy device.host

/-- The two ends must have resolved the same width. -/
def connect (host device : Slot) (bus : Options) : Except EngineError (RelayTable × BusNotice) := do
  let root ← width host.name host.options bus
  let endpoint ← width device.name device.options bus
  agree widthOption.key (host.name, root) (device.name, endpoint)
  return (table root, .pcieLink root)

def clockName : String := "user_clk"

end Lockstep.PcieTlp
