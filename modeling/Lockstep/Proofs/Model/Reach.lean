import Lockstep.Model.Rig
import Lockstep.Proofs.Message.RoundTrip
import Lockstep.Proofs.Model.Drive
/-!
# The signals of a model

Every model has a fixed list of signals that it drives. At an edge it changes some of them and releases some
(`Actor.redriven_edge`), whatever it sees and however far it has got. So it never drives the signals of somebody else,
and never leaves out of an offer what it has driven before.
-/

namespace Lockstep

open Signals (Redriven)

/-! ### AXI4 -/

namespace Axi4

/-- The signals that the master drives, with their widths. -/
def Master.reach : List (String × Nat) := [
  ("ARESETn", 1), ("AWVALID", 1), ("AWADDR", 32), ("AWID", 4), ("AWLEN", 8), ("AWSIZE", 3), ("AWBURST", 2),
  ("WVALID", 1), ("WDATA", 32), ("WSTRB", 4), ("WLAST", 1), ("BREADY", 1),
  ("ARVALID", 1), ("ARADDR", 32), ("ARID", 4), ("ARLEN", 8), ("ARSIZE", 3), ("ARBURST", 2), ("RREADY", 1)]

/-- The signals that the memory drives, with their widths. -/
def Memory.reach : List (String × Nat) := [
  ("AWREADY", 1), ("WREADY", 1), ("ARREADY", 1), ("BVALID", 1), ("BID", 4), ("BRESP", 2),
  ("RVALID", 1), ("RDATA", 32), ("RID", 4), ("RRESP", 2), ("RLAST", 1)]

theorem Master.redriven_start (m : Master) (t : Transfer) : Redriven Master.reach m.drive (m.start t).drive := by
  cases t with
  | write address data =>
    exact Redriven.same
      |>.setBit (by decide) |>.setNat (by decide) |>.setNat (by decide) |>.setNat (by decide) |>.setNat (by decide)
      |>.setNat (by decide) |>.setBit (by decide) |>.setNat (by decide) |>.setNat (by decide) |>.setBit (by decide)
      |>.setBit (by decide)
  | read address =>
    exact Redriven.same
      |>.setBit (by decide) |>.setNat (by decide) |>.setNat (by decide) |>.setNat (by decide) |>.setNat (by decide)
      |>.setNat (by decide) |>.setBit (by decide)

theorem Master.redriven_handOver (seen : Signals) (valid : String) (h : (valid, 1) ∈ Master.reach) (ready : String)
    (sent : Bool) (drive : Signals) : Redriven Master.reach drive (handOver seen valid ready sent drive).2 := by
  unfold handOver
  split
  · exact Redriven.same.setBit h
  · exact .same

theorem Master.redriven_edge {seen : Signals} {m m' : Master} {result : Option Nat}
    (h : m.edge seen = .ok (m', result)) : Redriven Master.reach m.drive m'.drive := by
  unfold edge at h
  split at h
  · cases h
    exact .same
  · next addressSent dataSent _ =>
    have haddress := redriven_handOver seen "AWVALID" (by decide) "AWREADY" addressSent m.drive
    have hdata := redriven_handOver seen "WVALID" (by decide) "WREADY" dataSent
      (handOver seen "AWVALID" "AWREADY" addressSent m.drive).2
    dsimp only at h
    split at h
    · obtain ⟨response, -, heq⟩ := exists_of_map_eq_ok h
      cases heq
      exact (haddress.trans hdata).setBit (by decide)
    · cases h
      exact haddress.trans hdata
  · next addressSent _ =>
    have haddress := redriven_handOver seen "ARVALID" (by decide) "ARREADY" addressSent m.drive
    dsimp only at h
    split at h
    · obtain ⟨data, -, heq⟩ := exists_of_map_eq_ok h
      cases heq
      exact haddress.setBit (by decide)
    · cases h
      exact haddress

namespace Memory

variable {seen : Signals} {m m' : Memory}

theorem redriven_retract (seen : Signals) (m : Memory) : Redriven reach m.drive (m.retract seen).drive := by
  unfold retract
  dsimp only
  split <;> split
  · exact Redriven.same |>.setBit (by decide) |>.setBit (by decide) |>.setBit (by decide)
  · exact Redriven.same.setBit (by decide)
  · exact Redriven.same |>.setBit (by decide) |>.setBit (by decide)
  · exact .same

theorem drive_takeAddress (h : m.takeAddress seen = .ok m') : m'.drive = m.drive := by
  unfold takeAddress at h
  split at h
  · obtain ⟨address, -, h⟩ := exists_of_bind_eq_ok h
    obtain ⟨id, -, h⟩ := exists_of_bind_eq_ok h
    cases h
    rfl
  · cases h
    rfl

theorem drive_takeData (h : m.takeData seen = .ok m') : m'.drive = m.drive := by
  unfold takeData at h
  split at h
  · obtain ⟨data, -, h⟩ := exists_of_bind_eq_ok h
    cases h
    rfl
  · cases h
    rfl

theorem redriven_store (m : Memory) : Redriven reach m.drive m.store.drive := by
  unfold store
  split
  · exact Redriven.same |>.setBit (by decide) |>.setNat (by decide) |>.setNat (by decide)
  · exact .same

theorem redriven_answer (h : m.answer seen = .ok m') : Redriven reach m.drive m'.drive := by
  unfold answer at h
  split at h
  · obtain ⟨address, -, h⟩ := exists_of_bind_eq_ok h
    obtain ⟨id, -, h⟩ := exists_of_bind_eq_ok h
    cases h
    exact Redriven.same
      |>.setBit (by decide) |>.setNat (by decide) |>.setNat (by decide) |>.setNat (by decide) |>.setBit (by decide)
  · cases h
    exact .same

theorem redriven_edge (h : m.edge seen = .ok m') : Redriven reach m.drive m'.drive := by
  obtain ⟨m₁, haddress, h⟩ := exists_of_bind_eq_ok h
  obtain ⟨m₂, hdata, h⟩ := exists_of_bind_eq_ok h
  have hstored : Redriven reach m₂.drive m'.drive := m₂.redriven_store.trans (redriven_answer h)
  rw [drive_takeData hdata, drive_takeAddress haddress] at hstored
  exact (redriven_retract seen m).trans hstored

end Memory

end Axi4

/-! ### PCI -/

namespace Pci

/-- The signals that a master drives, with their widths. -/
def Master.reach : List (String × Nat) := [("REQ#", 1), ("FRAME#", 1), ("IRDY#", 1), ("AD", 64), ("C/BE#", 8)]

/-- The signals that a target drives, with their widths. -/
def Target.reach : List (String × Nat) := [("DEVSEL#", 1), ("TRDY#", 1), ("AD", 64)]

namespace Master

theorem redriven_start (m : Master) (q : Query) : Redriven reach m.drive (m.start q).drive :=
  Redriven.same.setBit (by decide)

theorem redriven_edge {seen : Signals} {m m' : Master} {result : Option Nat} (h : m.edge seen = .ok (m', result)) :
    Redriven reach m.drive m'.drive := by
  have hlow : ∀ (name : String) (n bits width : Nat), (name, width) ∈ reach →
      (name, (lowPart n bits width).width) ∈ reach := fun name n bits width hmem => by
    rwa [lowPart, Bundle.width_resize]
  unfold edge at h
  split at h
  · cases h
    exact .same
  · dsimp only at h
    split at h <;> cases h
    · exact Redriven.same
        |>.set (hlow _ _ _ _ (by decide)) |>.set (hlow _ _ _ _ (by decide)) |>.setBit (by decide) |>.setBit (by decide)
    · exact .same
  · cases h
    exact Redriven.same
      |>.setBit (by decide) |>.setBit (by decide) |>.release "AD" |>.set (hlow _ _ _ _ (by decide))
  · dsimp only at h
    split at h
    · obtain ⟨v, -, heq⟩ := exists_of_map_eq_ok h
      cases heq
      exact Redriven.same.setBit (by decide)
    · split at h <;> cases h
      · exact .same
      · exact Redriven.same.setBit (by decide)
  · cases h
    exact Redriven.same
      |>.release "FRAME#" |>.release "IRDY#" |>.release "AD" |>.release "C/BE#" |>.release "REQ#"

end Master

theorem Target.redriven_edge {seen : Signals} {t t' : Target} (h : t.edge seen = .ok t') :
    Redriven Target.reach t.drive t'.drive := by
  unfold edge at h
  split at h
  · cases h
    split
    · exact Redriven.same |>.release "DEVSEL#" |>.release "TRDY#" |>.release "AD"
    · exact .same
  · split at h
    · obtain ⟨v, -, heq⟩ := exists_of_map_eq_ok h
      cases heq
      exact Redriven.same
        |>.setBit (by decide) |>.setBit (by decide) |>.set (by rw [lowPart, Bundle.width_resize]; decide)
    · cases h
      exact .same

end Pci

/-! ### Any model -/

theorem Worker.jobs_begin {μ job : Type} (start : μ → job → μ) (m : μ) (jobs : List job) (results : List Nat) :
    (begin start m jobs results).jobs = jobs ∧ (begin start m jobs results).results = results := by
  cases jobs <;> exact ⟨rfl, rfl⟩

theorem Worker.edge_spec {μ job : Type} {start : μ → job → μ} {act : μ → Except ClientError (μ × Option Nat)}
    {w w' : Worker μ job} (h : w.edge start act = .ok w') :
    ∃ model result, act w.model = .ok (model, result) ∧
      w' = match result with
        | none => { w with model }
        | some n => begin start model w.jobs.tail (w.results ++ [n]) := by
  obtain ⟨⟨model, result⟩, hact, heq⟩ := exists_of_map_eq_ok h
  refine ⟨model, result, hact, ?_⟩
  cases result <;> exact heq.symm

namespace Actor

/-- The signals that a model drives, with their widths. -/
def reach : Actor → List (String × Nat)
  | .axi4Master _ => Axi4.Master.reach
  | .axi4Memory _ => Axi4.Memory.reach
  | .pciMaster _ => Pci.Master.reach
  | .pciTarget _ => Pci.Target.reach

theorem redriven_worker {μ job : Type} {start : μ → job → μ} {act : μ → Except ClientError (μ × Option Nat)}
    {reach : List (String × Nat)} {drive : μ → Signals} (hstart : ∀ m j, Redriven reach (drive m) (drive (start m j)))
    (hact : ∀ m m' result, act m = .ok (m', result) → Redriven reach (drive m) (drive m')) {w w' : Worker μ job}
    (h : w.edge start act = .ok w') : Redriven reach (drive w.model) (drive w'.model) := by
  obtain ⟨model, result, hmodel, rfl⟩ := Worker.edge_spec h
  have hacted := hact _ _ _ hmodel
  cases result with
  | none => exact hacted
  | some n =>
    cases htail : w.jobs.tail with
    | nil => exact hacted
    | cons j jobs => exact hacted.trans (hstart model j)

theorem redriven_edge {seen : Signals} {a a' : Actor} (h : a.edge seen = .ok a') :
    Redriven a.reach a.drive a'.drive ∧ a'.reach = a.reach := by
  cases a with
  | axi4Master w =>
    obtain ⟨w', hw, rfl⟩ := exists_of_map_eq_ok h
    exact ⟨redriven_worker Axi4.Master.redriven_start (fun _ _ _ => Axi4.Master.redriven_edge) hw, rfl⟩
  | axi4Memory m =>
    obtain ⟨m', hm, rfl⟩ := exists_of_map_eq_ok h
    exact ⟨Axi4.Memory.redriven_edge hm, rfl⟩
  | pciMaster w =>
    obtain ⟨w', hw, rfl⟩ := exists_of_map_eq_ok h
    exact ⟨redriven_worker Pci.Master.redriven_start (fun _ _ _ => Pci.Master.redriven_edge) hw, rfl⟩
  | pciTarget t =>
    obtain ⟨t', ht, rfl⟩ := exists_of_map_eq_ok h
    exact ⟨Pci.Target.redriven_edge ht, rfl⟩

theorem clock_edge {seen : Signals} {a a' : Actor} (h : a.edge seen = .ok a') : a'.clock = a.clock := by
  cases a <;>
    · obtain ⟨_, -, rfl⟩ := exists_of_map_eq_ok h
      rfl

end Actor

end Lockstep
