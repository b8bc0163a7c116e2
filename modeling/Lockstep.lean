import Lockstep.Address.Internet
import Lockstep.Model.Rig
import Lockstep.Server.Session
import Lockstep.Proofs.Bus.Step
import Lockstep.Proofs.Bus.Sound
import Lockstep.Proofs.Bus.Run
import Lockstep.Proofs.Bus.Barrier
import Lockstep.Proofs.Server.Move
import Lockstep.Proofs.Server.Binding
import Lockstep.Proofs.Server.Transcript
import Lockstep.Proofs.Bus.Anonymous
import Lockstep.Proofs.Bus.Roster
import Lockstep.Proofs.Server.Play
import Lockstep.Proofs.Server.Match
import Lockstep.Proofs.Server.Determinism
import Lockstep.Proofs.Bus.Fit
import Lockstep.Proofs.Server.History
import Lockstep.Proofs.Server.Exchange
import Lockstep.Proofs.Bus.Rekey
import Lockstep.Proofs.Server.Confinement
import Lockstep.Proofs.Server.Isolation
import Lockstep.Proofs.Message.Framing
import Lockstep.Proofs.Bus.Vocabulary
import Lockstep.Proofs.Client.Network
import Lockstep.Proofs.Server.Outward
import Lockstep.Proofs.Client.Conversation
import Lockstep.Proofs.Client.Reception
import Lockstep.Proofs.Client.Agreement
import Lockstep.Proofs.Bus.Attempt
import Lockstep.Proofs.Engine.Display
import Lockstep.Proofs.Bus.Change
import Lockstep.Proofs.Engine.Ends
import Lockstep.Proofs.Engine.Tables
import Lockstep.Proofs.Bus.Terms
import Lockstep.Proofs.Clock
import Lockstep.Proofs.Bus.Schedule
import Lockstep.Proofs.Bus.Offers
import Lockstep.Proofs.Bus.Relayed
import Lockstep.Proofs.Engine.Wires
import Lockstep.Proofs.Bus.Interface
import Lockstep.Proofs.Bus.SharedWires
import Lockstep.Proofs.Text
import Lockstep.Proofs.Message.Grammar
import Lockstep.Proofs.Message.Frames
import Lockstep.Proofs.Engine.Arbitration
import Lockstep.Proofs.Bus.Grant
import Lockstep.Proofs.Bus.Legible
import Lockstep.Proofs.Model.Drive
import Lockstep.Proofs.Model.Reach
import Lockstep.Proofs.Model.Player
import Lockstep.Proofs.Model.Join
import Lockstep.Proofs.Model.Round
import Lockstep.Proofs.Model.Transfer
import Lockstep.Proofs.Model.Stage
import Lockstep.Proofs.Model.Memory
import Lockstep.Proofs.Model.Cycle
import Lockstep.Proofs.Model.Traffic
import Lockstep.Proofs.Model.Concert
import Lockstep.Proofs.Model.Course
import Lockstep.Proofs.Model.Exclusion
import Lockstep.Proofs.Model.Lineup
import Lockstep.Proofs.Model.Reads
import Lockstep.Proofs.Time.Value
import Lockstep.Proofs.Time.Sum
import Lockstep.Proofs.Engine.Rotation
import Lockstep.Proofs.Engine.Linger
import Lockstep.Proofs.Bus.Ownership
import Lockstep.Proofs.Bus.Range
import Lockstep.Proofs.Time.Order
import Lockstep.Proofs.Time.Rescale
import Lockstep.Proofs.Bus.Failure
import Lockstep.Proofs.Bus.Admission
import Lockstep.Proofs.Bus.Arrival
import Lockstep.Proofs.Engine.Options
import Lockstep.Proofs.Bus.Assembly
import Lockstep.Proofs.Bus.Unannounced
import Lockstep.Proofs.Bus.Sideband
import Lockstep.Proofs.Bus.Stopping
import Lockstep.Proofs.Engine.Recall
import Lockstep.Proofs.Client.Waiting
import Lockstep.Proofs.Server.Construction
import Lockstep.Proofs.Bundle.Conversion
import Lockstep.Proofs.Address
