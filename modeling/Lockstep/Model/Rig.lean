import Lockstep.Bus
import Lockstep.Model.Axi4
import Lockstep.Model.Pci
/-!
# A bus with device models on it

A rig is a bus whose devices are all played by models. In every round each player makes its offer, or leaves,
and the bus takes a step; a player whose clock has risen with it acts. Masters work through lists of jobs and
leave when they are done, the other players leave when they are told to stop. In a whole run they are told so once
all masters are done.
-/

namespace Lockstep

/-- A master with its jobs. The first of them is in progress. -/
structure Worker (μ job : Type) where
  model : μ
  jobs : List job
  /-- The results of the jobs that are done. -/
  results : List Nat
deriving DecidableEq

namespace Worker

variable {μ job : Type}

def begin (start : μ → job → μ) (model : μ) (jobs : List job) (results : List Nat) : Worker μ job :=
  match jobs with
  | [] => ⟨model, [], results⟩
  | j :: _ => ⟨start model j, jobs, results⟩

/-- A rising edge. A job that is done makes room for the next one. -/
def edge (start : μ → job → μ) (act : μ → Except ClientError (μ × Option Nat)) (w : Worker μ job) :
    Except ClientError (Worker μ job) :=
  (act w.model).map fun
    | (model, none) => { w with model }
    | (model, some result) => begin start model w.jobs.tail (w.results ++ [result])

end Worker

/-- A device model. -/
inductive Actor where
  | axi4Master (worker : Worker Axi4.Master Axi4.Transfer)
  | axi4Memory (memory : Axi4.Memory)
  | pciMaster (worker : Worker Pci.Master Pci.Query)
  | pciTarget (target : Pci.Target)
deriving DecidableEq

namespace Actor

def ofTransfers (jobs : List Axi4.Transfer) : Actor := .axi4Master (.begin Axi4.Master.start .fresh jobs [])

def ofQueries (jobs : List Pci.Query) : Actor := .pciMaster (.begin Pci.Master.start .fresh jobs [])

/-- The clock at whose rising edges the model acts. -/
def clock : Actor → String
  | .axi4Master _ | .axi4Memory _ => Axi4.clockName
  | .pciMaster _ | .pciTarget _ => Pci.clockName

def drive : Actor → Signals
  | .axi4Master w => w.model.drive
  | .axi4Memory m => m.drive
  | .pciMaster w => w.model.drive
  | .pciTarget t => t.drive

def edge (seen : Signals) : Actor → Except ClientError Actor
  | .axi4Master w => (w.edge Axi4.Master.start (Axi4.Master.edge seen)).map .axi4Master
  | .axi4Memory m => (m.edge seen).map .axi4Memory
  | .pciMaster w => (w.edge Pci.Master.start (Pci.Master.edge seen)).map .pciMaster
  | .pciTarget t => (t.edge seen).map .pciTarget

def isMaster : Actor → Bool
  | .axi4Master _ | .pciMaster _ => true
  | .axi4Memory _ | .pciTarget _ => false

def isDone : Actor → Bool
  | .axi4Master w => w.jobs.isEmpty
  | .pciMaster w => w.jobs.isEmpty
  | .axi4Memory _ | .pciTarget _ => false

/-- The results of a master that ended with an error, or with all jobs done. -/
def results (fault : Option ClientError) : Actor → List (Except ClientError Nat)
  | .axi4Master w => report w.results w.jobs.length
  | .pciMaster w => report w.results w.jobs.length
  | .axi4Memory _ | .pciTarget _ => []
where
  /-- What was done, and the error for each job that was not. -/
  report (done : List Nat) (left : Nat) : List (Except ClientError Nat) :=
    done.map .ok ++ match fault with
      | some e => List.replicate left (.error e)
      | none => []

end Actor

/-- A model on its bus. -/
structure Player where
  connection : ConnectionKey
  client : Client
  actor : Actor
  /-- The model has acted at the last delivery, or has not begun. -/
  atEdge : Bool
  /-- How it went, once the player has left the bus. -/
  outcome : Option (Except ClientError Unit)

namespace Player

def isOn (p : Player) : Bool := p.outcome.isNone

def fault? (p : Player) : Option ClientError :=
  match p.outcome with
  | some (.error e) => some e
  | _ => none

def leave (p : Player) (outcome : Except ClientError Unit) : Player := { p with outcome := some outcome }

/-- How the farewell of the player goes, once it has left: to one that was cut off the stream has ended. -/
def farewell (p : Player) : Except ClientError Unit :=
  match p.fault? with
  | some e => Client.farewell (.error e)
  | none => .ok ()

/-- What the player knows after a delivery, and what it does if its clock has risen. -/
def hear (p : Player) (m : Message) : Player :=
  match p.client.take m with
  | .error e => p.leave (.error e)
  | .ok client =>
    let p' := { p with client }
    if Edge.rising.occurs (p.client.bit p.actor.clock) (client.bit p.actor.clock) then
      match p.actor.edge client.signals with
      | .ok actor => { p' with actor, atEdge := true }
      | .error e => p'.leave (.error e)
    else p'

end Player

structure Rig where
  bus : Bus
  players : List Player

namespace Rig

def mastersDone (players : List Player) : Bool :=
  players.all fun p => !p.actor.isMaster || p.actor.isDone || !p.isOn

/-- The player leaves the bus at the next opportunity. Who has no jobs is told by number when to stop. -/
def leaves (stop : Ident → Bool) (p : Player) : Bool :=
  p.atEdge && if p.actor.isMaster then p.actor.isDone else stop p.client.ident

def join (bus : Bus) (connection : ConnectionKey) (name : String) (actor : Actor) : Player × Bus :=
  match bus.handshake connection name .empty with
  | (.ok ident, bus, _) => (⟨connection, .fresh name ident, actor, true, none⟩, bus)
  | (.error _, bus, _) =>
    (⟨connection, .fresh name 0, actor, true, some (.error (.rejected name))⟩, bus)

/-- Introduces models, by the names of their devices. -/
def joinAll (bus : Bus) (connection : ConnectionKey) : List (String × Actor) → Rig
  | [] => ⟨bus, []⟩
  | (name, actor) :: rest =>
    let (player, bus) := join bus connection name actor
    let rig := joinAll bus (connection + 1) rest
    { rig with players := player :: rig.players }

/-- One player's turn before a step: it leaves, or it offers what it drives. A player whose offer the bus does
not take is cut off. -/
def speak (stop : Ident → Bool) (p : Player) (bus : Bus) : Player × Bus :=
  if !p.isOn then (p, bus)
  else if leaves stop p then (p.leave (.ok ()), (bus.receive p.client.ident .finish).2.1)
  else
    match bus.checkOffer p.client.ident (p.client.offer p.actor.drive) with
    | .error _ => (p.leave (.error .disconnected), (bus.disconnect p.client.ident).2)
    | .ok m =>
      match bus.receive p.client.ident m with
      | (.ok _, bus, _) => ({ p with atEdge := false }, bus)
      | (.error _, bus, _) => (p.leave (.error .disconnected), bus)

def speakAll (stop : Ident → Bool) (bus : Bus) : List Player → List Player × Bus
  | [] => ([], bus)
  | p :: ps =>
    let (p, bus) := speak stop p bus
    let (ps, bus) := speakAll stop bus ps
    (p :: ps, bus)

/-- What a player makes of an attempt to step. -/
def hearStep (outcome : Advance) (p : Player) : Player :=
  if !p.isOn then p
  else match outcome with
    | .waiting => p
    | .failed _ => p.leave (.error .disconnected)
    | .stepped ds =>
      match ds.lookup p.connection with
      | some m => p.hear m
      | none => p

/-- The bus learns of the players that a delivery drove away. -/
def dropLost (before after : List Player) (bus : Bus) : Bus :=
  (before.zip after).foldl (fun bus (p, q) =>
    if p.isOn && !q.isOn then (bus.disconnect p.client.ident).2 else bus) bus

def round (stop : Ident → Bool) (r : Rig) : Rig :=
  let (players, bus) := speakAll stop r.bus r.players
  let (outcome, bus, _) := bus.advance
  let heard := players.map (hearStep outcome)
  ⟨dropLost players heard bus, heard⟩

def isOver (r : Rig) : Bool := r.players.all fun p => !p.isOn

/-- Rounds until everybody has left, `rounds` at most. -/
def run : Nat → Rig → Rig
  | 0, r => r
  | rounds + 1, r => if r.isOver then r else run rounds (r.round fun _ => mastersDone r.players)

/-- More rounds than some jobs can take: no job needs more than a dozen clocks of four rounds. -/
def roundsFor (jobs : Nat) : Nat := 64 * (jobs + 2)

/-- The whole run of a bus with models on it. -/
def play (config : BusConfig) (jobs : Nat) (actors : List (String × Actor)) : Except ConfigError Rig :=
  (Bus.ofConfig config).map fun bus => run (roundsFor jobs) (joinAll bus 0 actors)

end Rig

end Lockstep
