import Lockstep.Proofs.Engine.Linger
/-!
# The recall of an idle grant

A grant that is not parked outlasts as many edges without requests as are left of the number that was drawn for it, and
is recalled at the last of them (`Arbiter.granted_of_quiet`). Every request begins the count anew, and a parked grant is
not counted at all. Since the counters of an arbiter stay in range whatever happens to it (`Arbiter.inRange_foldl`), the
number of edges is bounded by the configuration: `Arbiter.recalls_in_time`.
-/

namespace Lockstep.Arbiter

variable {a : Arbiter} {call : Call} {calls : List Call} {n : Nat}

def Quiet (calls : List Call) : Prop := ∀ requests, .arbitrate requests ∈ calls → requests = 0

def edgeCount (calls : List Call) : Nat :=
  calls.countP fun
    | .arbitrate _ => true
    | .spend => false

theorem quiet_cons : Quiet (call :: calls) ↔ Quiet [call] ∧ Quiet calls := by
  simp [Quiet, or_imp, forall_and]

/-! ### Any calls -/

theorem inRange_foldl (calls : List Call) (h : a.InRange) : (calls.foldl perform a).InRange ∧
    (calls.foldl perform a).parking = a.parking ∧ (calls.foldl perform a).linger = a.linger := by
  induction calls generalizing a with
  | nil => exact ⟨h, rfl, rfl⟩
  | cons call calls ih =>
    cases call with
    | spend => exact ih h.spend
    | arbitrate requests =>
      obtain ⟨hrange, hparking, hlinger⟩ := ih (h.arbitrate requests)
      have hedge := a.edge_spec requests
      refine ⟨hrange, hparking.trans ?_, hlinger.trans ?_⟩
      · generalize a.arbitrate requests = a' at hedge
        cases hedge <;> rfl
      · generalize a.arbitrate requests = a' at hedge
        cases hedge <;> rfl

/-! ### Edges without requests -/

theorem arbitrate_zero (a : Arbiter) : a.arbitrate 0 = a.idleClock := by
  have hnobody : ∀ n, requesting 0 n = false := fun n => Nat.zero_testBit n
  have hkeeps : ¬ a.keeps 0 = true := by
    rw [keeps_iff]
    rintro ⟨n, -, hrequest, -⟩
    cases (hnobody n).symm.trans hrequest
  rw [arbitrate, if_neg hkeeps, pick?_eq_none_iff.2 fun n _ => hnobody n]

theorem arbitrate_of_ne_zero {requests : UInt16} (h : requests ≠ 0) :
    (a.arbitrate requests).idle = 0 ∧ (a.arbitrate requests).recallAfter = a.recallAfter := by
  have hedge := a.edge_spec requests
  generalize a.arbitrate requests = a' at hedge
  cases hedge with
  | kept | passed => exact ⟨rfl, rfl⟩
  | lingered _ quiet | recalled _ _ quiet => exact absurd (eq_zero_of_quiet quiet) h

theorem granted_of_quiet_of_none (hgranted : a.granted = none) (hquiet : Quiet calls) :
    (calls.foldl perform a).granted = none := by
  induction calls generalizing a with
  | nil => exact hgranted
  | cons call calls ih =>
    obtain ⟨hcall, hcalls⟩ := quiet_cons.1 hquiet
    refine ih ?_ hcalls
    cases call with
    | spend => exact hgranted
    | arbitrate requests =>
      obtain rfl := hcall requests (by simp)
      rw [perform, arbitrate_zero]
      rcases a.idleClock_spec with ⟨hsame, -⟩ | hnone
      · rw [hsame, hgranted]
      · exact hnone

theorem granted_of_parked (hparking : a.parking = .last) (hquiet : Quiet calls) :
    (calls.foldl perform a).granted = a.granted := by
  induction calls generalizing a with
  | nil => rfl
  | cons call calls ih =>
    obtain ⟨hcall, hcalls⟩ := quiet_cons.1 hquiet
    cases call with
    | spend => exact ih hparking hcalls
    | arbitrate requests =>
      obtain rfl := hcall requests (by simp)
      have hidle : a.perform (.arbitrate 0) = a := by
        rw [perform, arbitrate_zero, idleClock, if_neg (by simp [hparking])]
      rw [List.foldl_cons, hidle]
      exact ih hparking hcalls

theorem granted_of_quiet (hparking : a.parking = .none) (hgranted : a.granted = some n) (hidle : a.idle < a.recallAfter)
    (hquiet : Quiet calls) :
    (calls.foldl perform a).granted = if edgeCount calls < a.recallAfter - a.idle then some n else none := by
  induction calls generalizing a with
  | nil =>
    rw [if_pos (by simp only [edgeCount, List.countP_nil]; omega)]
    exact hgranted
  | cons call calls ih =>
    obtain ⟨hcall, hcalls⟩ := quiet_cons.1 hquiet
    cases call with
    | spend => exact ih hparking hgranted hidle hcalls
    | arbitrate requests =>
      obtain rfl := hcall requests (by simp)
      have hcount : edgeCount (.arbitrate 0 :: calls) = edgeCount calls + 1 := by simp [edgeCount]
      have hedge : a.perform (.arbitrate 0) = a.idleClock := arbitrate_zero a
      rw [List.foldl_cons, hedge, hcount, idleClock, if_pos ⟨hparking, by rw [hgranted]; rfl⟩]
      by_cases hlast : a.idle + 1 < a.recallAfter
      · rw [if_pos hlast, ih (a := { a with idle := a.idle + 1 }) hparking hgranted hlast hcalls]
        refine if_congr ?_ rfl rfl
        show edgeCount calls < a.recallAfter - (a.idle + 1) ↔ _
        omega
      · -- This is the last clock. The edges that may follow find nothing to recall.
        rw [if_neg hlast, if_neg (by omega)]
        exact granted_of_quiet_of_none rfl hcalls

/-! ### Any state that is reached -/

/-- How the grant of an arbiter comes to an end that has been started with some parking mode and linger. -/
structure Recalls (parking : Parking) (linger : UInt32) (a : Arbiter) : Prop where
  /-- The count of idle clocks stays below the number that was drawn, and fits into 32 bits when it is raised. -/
  counts : a.idle < a.recallAfter ∧ a.idle + 1 < UInt32.size
  drawn : 1 ≤ a.recallAfter ∧ a.recallAfter ≤ max 1 (min (2 * linger.toNat) (UInt32.size - 1))
  /-- The grant is recalled when the clocks that are left have passed, and not before. -/
  recalled : parking = .none → ∀ n, a.granted = some n → ∀ calls, Quiet calls →
    (calls.foldl perform a).granted = if edgeCount calls < a.recallAfter - a.idle then some n else none
  /-- A request begins the count anew. -/
  restarts : ∀ requests, requests ≠ 0 →
    (a.arbitrate requests).idle = 0 ∧ (a.arbitrate requests).recallAfter = a.recallAfter
  parked : parking = .last → ∀ calls, Quiet calls → (calls.foldl perform a).granted = a.granted

/-- **Recall.** Whatever has happened to an arbiter, an idle grant is recalled in time, or parked. -/
theorem recalls_in_time (parking : Parking) (linger : UInt32) (seed : UInt64) (calls : List Call) :
    Recalls parking linger (calls.foldl perform (start parking linger seed)) := by
  obtain ⟨hrange, hparking, hlinger⟩ := inRange_foldl calls (inRange_start parking linger seed)
  generalize calls.foldl perform (start parking linger seed) = a at hrange hparking hlinger
  obtain rfl : a.parking = parking := hparking
  obtain rfl : a.linger = linger := hlinger
  exact ⟨⟨hrange.idle, hrange.idle_succ_lt⟩, ⟨Nat.one_le_of_lt hrange.idle, hrange.recallAfter⟩,
    fun hnone _ hgranted _ => granted_of_quiet hnone hgranted hrange.idle, fun _ => arbitrate_of_ne_zero,
    fun hlast _ => granted_of_parked hlast⟩

end Lockstep.Arbiter
