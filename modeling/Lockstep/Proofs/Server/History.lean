import Lockstep.Proofs.Bus.Fit
import Lockstep.Proofs.Server.Binding
/-!
# The history of a bus in a server

Seen from one of its buses, a server only performs operations: whatever a move changes of a bus comes to a handshake,
a line of a connected participant, a disconnection, an attempt to step or tearing down (`Consistent.moved_run`). So
every bus of a server that was configured has gone through a run of its own (`bus_history`), and what holds along the
runs of a bus holds of the buses of a server.

An event may name any connection. That its operation is one that the bus permits is where the agreement between
connections and slots comes in: a line is handed to the slot that holds its connection, which somebody has claimed.
-/

namespace Lockstep

theorem Bus.Run.trans {b₀ b₁ b₂ : Bus} {trace more : Bus.Trace} (h : b₀.Run trace b₁) (h' : b₁.Run more b₂) :
    b₀.Run (trace ++ more) b₂ := by
  induction h' with
  | nil => rwa [List.append_nil]
  | snoc _ op permitted ih =>
    rw [← List.append_assoc]
    exact ih.snoc op permitted

theorem Bus.Run.single {b : Bus} (op : Bus.Operation) (permitted : b.Permits op) :
    b.Run [(b, op)] (b.perform op) :=
  Bus.Run.nil.snoc op permitted

namespace Server

variable {s s' : Server} {actions : List ServerAction}

theorem run_of_setBus {m : Nat} {b b' : Bus} {trace : Bus.Trace} (hb : s.buses[m]? = some b)
    (hrun : b.Run trace b') {n : Nat} {b'' : Bus} (h : (s.setBus m b').buses[n]? = some b'') :
    ∃ b₀ trace, s.buses[n]? = some b₀ ∧ b₀.Run trace b'' := by
  by_cases hn : m = n
  · subst hn
    rw [buses_setBus hb] at h
    cases h
    exact ⟨b, trace, hb, hrun⟩
  · rw [buses_setBus_of_ne hn] at h
    exact ⟨b'', [], h, .nil⟩

theorem Consistent.run_retire (hs : s.Consistent) {k : ConnectionKey} {c : Connection} {b : Bus} {i : Ident}
    (hc : s.connections.get? k = some c) (bound : c.ident = some i) (hb : s.buses[c.bus]? = some b) :
    ∃ trace, b.Run trace (b.retire i) := by
  obtain ⟨slot, hslot, -, hclaimed, hlive⟩ := hs.slot_of_bound hc bound hb
  have hrun := Bus.Run.single (b := b) (.disconnect i) ⟨slot, hslot, hclaimed⟩
  rw [Bus.perform, Bus.disconnect_of_live hslot hlive] at hrun
  exact ⟨_, hrun⟩

theorem Consistent.moved_run (hs : s.Consistent) {m : Move} (h : s.Moved m s' actions) {n : Nat} {b' : Bus}
    (hb' : s'.buses[n]? = some b') : ∃ b trace, s.buses[n]? = some b ∧ b.Run trace b' := by
  cases h with
  | ignored | opened | refused | dropped | waiting => exact ⟨b', [], hb', .nil⟩
  | admitted k text c b name options slot widths notices hc free hb decoded admits =>
    have hrun := Bus.Run.single (b := b) (.handshake k name options) trivial
    rw [Bus.perform, Bus.handshake, admits] at hrun
    exact run_of_setBus hb hrun hb'
  | offered k text c b i notices hc bound hb heard =>
    obtain ⟨slot, hslot, hk, hclaimed, -⟩ := hs.slot_of_bound hc bound hb
    exact run_of_setBus hb (.single (.line i text) ⟨slot, k, hslot, hclaimed, hk⟩) hb'
  | left k text c b i notices hc bound hb =>
    obtain ⟨trace, hrun⟩ := hs.run_retire hc bound hb
    exact run_of_setBus hb hrun hb'
  | expelled k e c b i notices about hc bound hb =>
    obtain ⟨trace, hrun⟩ := hs.run_retire hc bound hb
    exact run_of_setBus hb hrun hb'
  | stepped m b ds notices hb => exact run_of_setBus hb (.single .advance trivial) hb'
  | ended m b b₁ notices closes hb live why =>
    rcases why with ⟨-, rfl⟩ | ⟨-, rfl, -⟩
    · exact run_of_setBus hb (.single .tearDown trivial) hb'
    · exact run_of_setBus hb ((Bus.Run.single .advance trivial).trans (.single .tearDown trivial)) hb'

theorem Reaches.bus_run (h : Reaches s s' actions) (hs : s.Consistent) {n : Nat} {b' : Bus}
    (hb' : s'.buses[n]? = some b') : ∃ b trace, s.buses[n]? = some b ∧ b.Run trace b' := by
  induction h generalizing b' with
  | start => exact ⟨b', [], hb', .nil⟩
  | move h m ih =>
    have hmoved := (h.consistent hs).moved m
    obtain ⟨b₁, more, hb₁, hrun⟩ := (h.consistent hs).moved_run hmoved hb'
    obtain ⟨b, trace, hb, hrun'⟩ := ih hb₁
    exact ⟨b, trace ++ more, hb, hrun'.trans hrun⟩

/-- Every bus of a server has gone through a run since it was configured. -/
theorem bus_history {configs : List BusConfig} {limit : Nat} {start : Server} {notices : List ServerNotice}
    (h : ofConfigs configs limit = (some start, notices)) (hreaches : Reaches start s actions) {n : Nat} {b : Bus}
    (hb : s.buses[n]? = some b) :
    ∃ c ∈ configs, ∃ fresh trace, Bus.ofConfig c = .ok fresh ∧ fresh.Run trace b := by
  obtain ⟨fresh, trace, hfresh, hrun⟩ := hreaches.bus_run (consistent_ofConfigs h) hb
  obtain ⟨c, hc, hconfig⟩ := (ofConfigs_spec h).2.2 fresh (List.mem_of_getElem? hfresh)
  exact ⟨c, hc, fresh, trace, hconfig, hrun⟩

theorem fitted_of_reaches {configs : List BusConfig} {limit : Nat} {start : Server} {notices : List ServerNotice}
    (h : ofConfigs configs limit = (some start, notices)) (hreaches : Reaches start s actions) {n : Nat} {b : Bus}
    (hb : s.buses[n]? = some b) : b.Fitted := by
  obtain ⟨c, -, fresh, trace, hfresh, hrun⟩ := bus_history h hreaches hb
  exact hrun.fitted (Bus.fitted_ofConfig hfresh)

end Server

end Lockstep
