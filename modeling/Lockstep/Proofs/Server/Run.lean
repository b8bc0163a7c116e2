import Lockstep.Server
import Lockstep.Proofs.SortedMap
import Mathlib.Data.List.Induction
/-!
# Runs of a server

A run gives a server events and service passes in any order (`Server.run`). A service pass is itself a sequence of
moves, one bus after the other, so what holds at the start and is kept by every event and by the service of every
single bus holds at any time, also in the middle of a pass: `Server.Reaches` collects these moments together with
everything that the server has done to the outside until then.
-/

namespace Lockstep.Server

/-! ### Sequences of operations -/

@[simp] theorem Outcome.andThen_fst (r : Outcome) (f : Server → Outcome) : (r.andThen f).1 = (f r.1).1 := rfl

@[simp] theorem Outcome.andThen_snd (r : Outcome) (f : Server → Outcome) :
    (r.andThen f).2 = r.2 ++ (f r.1).2 := rfl

section Sequences

variable {α : Type} (s : Server) (f : α → Server → Outcome)

@[simp] theorem forEach_nil : s.forEach [] f = (s, []) := rfl

theorem forEach_concat (xs : List α) (x : α) : s.forEach (xs ++ [x]) f = (s.forEach xs f).andThen (f x) := by
  simp [forEach]

end Sequences

/-! ### Runs -/

inductive Step where
  | event (e : ServerEvent)
  /-- A pass over all buses. -/
  | service

def perform (s : Server) : Step → Outcome
  | .event e => s.handle e
  | .service => s.service

def run (s : Server) (steps : List Step) : Outcome := s.forEach steps fun step s => s.perform step

theorem run_concat (s : Server) (steps : List Step) (step : Step) :
    s.run (steps ++ [step]) = (s.run steps).andThen fun t => t.perform step :=
  s.forEach_concat _ _ _

theorem run_append (s : Server) (steps more : List Step) :
    s.run (steps ++ more) = (s.run steps).andThen fun t => t.run more := by
  induction more using List.reverseRecOn with
  | nil =>
    rw [List.append_nil]
    simp [Outcome.andThen, run]
  | append_singleton more step ih =>
    rw [← List.append_assoc, run_concat, ih]
    simp only [Outcome.andThen, run_concat, List.append_assoc]

/-- The server after the first `n` buses of a service pass have been served. -/
def partway (s : Server) (n : Nat) : Outcome := s.forEach (List.range n) serviceBus

theorem partway_succ (s : Server) (n : Nat) :
    s.partway (n + 1) = (s.partway n).andThen (serviceBus n) := by
  rw [partway, List.range_succ, forEach_concat]
  rfl

theorem service_eq_partway (s : Server) : s.service = s.partway s.buses.length := rfl

/-- A batch of events is a run that ends in a service pass. -/
theorem handleBatch_eq_run (s : Server) (events : List ServerEvent) :
    s.handleBatch events = s.run (events.map .event ++ [.service]) := by
  have hevents : (s.forEach events fun e s => s.handle e) = s.run (events.map .event) := by
    rw [run, forEach, forEach, List.foldl_map]
    rfl
  rw [run_concat, ← hevents]
  rfl

/-! ### Moves -/

/-- What changes a server at a time: an event, or the service of one bus. -/
inductive Move where
  | event (e : ServerEvent)
  | serviceBus (index : Nat)

def move (s : Server) : Move → Outcome
  | .event e => s.handle e
  | .serviceBus index => s.serviceBus index

/-- The event is about bus `n` or one of its connections. -/
def concerns (s : Server) (n : Nat) : ServerEvent → Bool
  | .accepted m _ => m = n
  | .line k _ | .malformed k _ | .closed k => (s.connections.get? k).any fun c => c.bus = n

/-- The server `t` is reached by moves that have done `actions` to the outside. -/
inductive Reaches (s : Server) : Server → List ServerAction → Prop where
  | start : Reaches s s []
  | move {t : Server} {actions : List ServerAction} (h : Reaches s t actions) (m : Move) :
      Reaches s (t.move m).1 (actions ++ (t.move m).2)

namespace Reaches

variable {s t u : Server} {actions more : List ServerAction}

theorem trans (h : Reaches s t actions) (h' : Reaches t u more) : Reaches s u (actions ++ more) := by
  induction h' with
  | start => rwa [List.append_nil]
  | move _ m ih =>
    rw [← List.append_assoc]
    exact ih.move m

theorem partway (s : Server) (n : Nat) : Reaches s (s.partway n).1 (s.partway n).2 := by
  induction n with
  | zero => exact start
  | succ n ih =>
    rw [partway_succ]
    exact ih.move (.serviceBus n)

theorem perform (s : Server) (step : Step) : Reaches s (s.perform step).1 (s.perform step).2 := by
  cases step with
  | event e => exact start.move (.event e)
  | service => exact partway s _

theorem run (s : Server) (steps : List Step) : Reaches s (s.run steps).1 (s.run steps).2 := by
  induction steps using List.reverseRecOn with
  | nil => exact start
  | append_singleton steps step ih =>
    rw [run_concat]
    exact ih.trans (perform _ step)

end Reaches

/-! ### What goes out -/

/-- The messages that go to one connection, in order. -/
def sentTo (k : ConnectionKey) (actions : List ServerAction) : List Message :=
  actions.filterMap fun
    | .send k' m => if k' = k then some m else none
    | _ => none

@[simp] theorem sentTo_nil (k : ConnectionKey) : sentTo k [] = [] := rfl

@[simp] theorem sentTo_send (k j : ConnectionKey) (m : Message) (actions : List ServerAction) :
    sentTo k (.send j m :: actions) = if j = k then m :: sentTo k actions else sentTo k actions := by
  rw [sentTo, List.filterMap_cons]
  split <;> split at * <;> simp_all [sentTo]

@[simp] theorem sentTo_close (k j : ConnectionKey) (actions : List ServerAction) :
    sentTo k (.close j :: actions) = sentTo k actions := rfl

@[simp] theorem sentTo_append (k : ConnectionKey) (as bs : List ServerAction) :
    sentTo k (as ++ bs) = sentTo k as ++ sentTo k bs := List.filterMap_append ..

@[simp] theorem sentTo_notes (k : ConnectionKey) (notices : List ServerNotice) :
    sentTo k (notices.map .note) = [] := by
  simp [sentTo]

@[simp] theorem sentTo_closes (k : ConnectionKey) (ks : List ConnectionKey) :
    sentTo k (ks.map .close) = [] := by
  simp [sentTo]

end Lockstep.Server
