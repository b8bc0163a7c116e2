import Lockstep.Engine.Axi4
import Lockstep.Engine.PcieTlp
import Lockstep.Engine.Pci
import Lockstep.Engine.PointToPoint
/-!
# Protocol engines

An engine decides which signals a participant may drive, and how the values driven turn into the values every
participant is shown with the next delivery. A paired engine is wired once both ends have agreed, and does
nothing before.
-/

namespace Lockstep

/-- The engine of a bus: either one of the three paired protocols, or a shared PCI bus. -/
inductive Engine where
  | pointToPoint (options : Options) (wiring : Option Wiring)
  | axi4 (options : Options) (wiring : Option Wiring)
  | pcieTlp (options : Options) (wiring : Option Wiring)
  | pci (state : Pci)
deriving DecidableEq

namespace Engine

/-- The engine of a configuration, unless an option of the bus makes no sense. -/
def ofConfig (c : BusConfig) : Except EngineError Engine :=
  match c.protocol with
  | .pointToPoint => (PointToPoint.check c.options).map fun _ => .pointToPoint c.options none
  | .axi4 => (Axi4.check c.name c.options).map fun _ => .axi4 c.options none
  | .pcieTlp => (PcieTlp.check c.name c.options).map fun _ => .pcieTlp c.options none
  | .pci => (Pci.start c.options).map .pci

def protocol : Engine → Protocol
  | .pointToPoint .. => .pointToPoint
  | .axi4 .. => .axi4
  | .pcieTlp .. => .pcieTlp
  | .pci _ => .pci

/-- The signals that a device may drive, given the options it announced. -/
def driven (e : Engine) (device : Device) (announced : Options) : Except EngineError Widths :=
  match e with
  | .pointToPoint bus _ => PointToPoint.driven device announced bus
  | .axi4 bus _ => Axi4.driven device announced bus
  | .pcieTlp bus _ => PcieTlp.driven device announced bus
  | .pci _ => .ok (Pci.driven device)

/-- Finds both ends of a link and lets them agree. -/
def wire (connect : Slot → Slot → Except EngineError (RelayTable × BusNotice)) (ps : Participants) :
    Except EngineError (Wiring × BusNotice) := do
  let link ← Link.find ps
  match ps.get? link.host, ps.get? link.device with
  | none, _ => .error (.missingRole .host)
  | some _, none => .error (.missingRole .device)
  | some host, some device =>
    let (table, notice) ← connect host device
    return (⟨link, table⟩, notice)

/-- Compares the options of all participants, once all have connected. -/
def wrapUp (e : Engine) (ps : Participants) : Except EngineError (Engine × BusNotice) :=
  match e with
  | .pointToPoint bus _ =>
    (wire (PointToPoint.connect · · bus) ps).map fun (w, n) => (.pointToPoint bus (some w), n)
  | .axi4 bus _ => (wire (Axi4.connect · · bus) ps).map fun (w, n) => (.axi4 bus (some w), n)
  | .pcieTlp bus _ => (wire (PcieTlp.connect · · bus) ps).map fun (w, n) => (.pcieTlp bus (some w), n)
  | .pci p => .ok (.pci p, .pciBus ps.size)

/-! ### Publishing -/

def broadcast (name : String) (level : Level) (ps : Participants) : Participants :=
  ps.each (·.sendBit name level)

/-- Relays a table and shows the clock to everybody. -/
def relayWithClock (clockName : String) (w : Wiring) (level : Level) (ps : Participants) : Participants :=
  broadcast clockName level (w.table.relay w.link ps)

/-- What participants are shown, given what they drive and the level of the clock. -/
def deliver (e : Engine) (level : Level) (ps : Participants) : Participants :=
  match e with
  | .pointToPoint _ (some w) => PointToPoint.showClock w.link level (w.table.relay w.link ps)
  | .axi4 _ (some w) => relayWithClock Axi4.clockName w level ps
  | .pcieTlp _ (some w) => relayWithClock PcieTlp.clockName w level ps
  | .pci p => p.deliver level ps
  | _ => ps

/-- What is published of a paired bus: its relayed signals, and its clock. -/
def pairedPublications (clockName : String) (w : Wiring) (level : Level) (ps : Participants) :
    List Publication :=
  w.table.publications w.link ps ++ [.signal clockName (.ofLevel level)]

/-- What is published when participants are shown new values. -/
def publications (e : Engine) (level : Level) (ps : Participants) : List Publication :=
  match e with
  | .pointToPoint _ (some w) => pairedPublications PointToPoint.clockName w level ps
  | .axi4 _ (some w) => pairedPublications Axi4.clockName w level ps
  | .pcieTlp _ (some w) => pairedPublications PcieTlp.clockName w level ps
  | .pci _ => Pci.publications level ps
  | _ => []

/-- The signals of a paired bus, with its clock first. -/
def pairedDeclarations (clockName : String) (w : Wiring) : List Publication :=
  .declare clockName 1 :: w.table.declarations

def declarations : Engine → List Publication
  | .pointToPoint _ (some w) => pairedDeclarations PointToPoint.clockName w
  | .axi4 _ (some w) => pairedDeclarations Axi4.clockName w
  | .pcieTlp _ (some w) => pairedDeclarations PcieTlp.clockName w
  | .pci _ => Pci.declarations
  | _ => []

/-! ### The two moments at which an engine acts -/

/-- What participants are shown before the first step. -/
def init (e : Engine) (phase : Phase) (ps : Participants) : Participants × List Record :=
  (e.deliver phase.level ps,
    (e.declarations ++ e.publications phase.level ps).map .published)

/-- Work that falls to an engine at a phase before it publishes. -/
def atPhase (e : Engine) (phase : Phase) (ps : Participants) : Engine × List BusNotice :=
  match e, phase with
  | .pci p, .rising =>
    let (p, notices) := p.risingEdge ps
    (.pci p, notices)
  | e, _ => (e, [])

def step (e : Engine) (phase : Phase) (ps : Participants) : Engine × Participants × List Record :=
  let (e, notices) := e.atPhase phase ps
  (e, e.deliver phase.level ps,
    notices.map .noticed ++ (e.publications phase.level ps).map .published)

end Engine

end Lockstep
