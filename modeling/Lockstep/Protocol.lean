/-!
# Bus protocols

A bus runs one of four protocols. Three of them link one host to one device; PCI is shared by any number of
participants.
-/

namespace Lockstep

/-- Which engine resolves the signals of a bus. -/
inductive Protocol where
  | pointToPoint
  | pci
  | axi4
  | pcieTlp
deriving DecidableEq, Inhabited

namespace Protocol

/-- The name of the protocol in a configuration. -/
def text : Protocol → String
  | .pointToPoint => "p2p"
  | .pci => "pci"
  | .axi4 => "axi4"
  | .pcieTlp => "pcie_tlp"

instance : ToString Protocol := ⟨text⟩

def all : List Protocol := [.pointToPoint, .pci, .axi4, .pcieTlp]

def parse? (name : String) : Option Protocol := all.find? fun p => p.text = name

/-- What is said of a name that stands for no protocol. -/
def unknownMessage (name : String) : String := s!"unknown protocol '{name}'"

/-- The protocol links exactly one host to exactly one device. -/
def isPaired (p : Protocol) : Bool := p ≠ .pci

end Protocol

end Lockstep
