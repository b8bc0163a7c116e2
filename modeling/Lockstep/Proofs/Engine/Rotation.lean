import Mathlib
import Lockstep.Proofs.Engine.Arbitration
/-!
# The rotation of the grant

Devices are asked in a cycle that begins behind the grantee. When the grant goes to device `n`, those that were asked
before it, and `n` itself, go to the end of the cycle (`Arbiter.order_some`). So a device that keeps requesting the bus
without getting it moves up with every grant that others win (`ahead_lt_of_won?`), past each of the others at most once:
`Arbiter.fair_rotation`. Whoever holds on to a grant without using it wins nothing and may do so for ever; what is counted here are
new grants.
-/

namespace Lockstep.Arbiter

/-- What happens to an arbiter. -/
inductive Call where
  /-- The grantee has become bus master. -/
  | spend
  /-- A rising edge. -/
  | arbitrate (requests : UInt16)

def perform (a : Arbiter) : Call → Arbiter
  | .spend => a.spend
  | .arbitrate requests => a.arbitrate requests

/-- The device that wins a new grant. A grantee that keeps its grant wins nothing, one that is picked again after it has
used its grant does. -/
def won? (a : Arbiter) : Call → Option Nat
  | .spend => none
  | .arbitrate requests => if a.keeps requests then none else pick? a.granted requests

/-- The devices that win new grants, in order. -/
def wins (a : Arbiter) : List Call → List Nat
  | [] => []
  | call :: calls => (a.won? call).toList ++ (a.perform call).wins calls

/-- Device `d` requests the bus at every edge. -/
def Requests (d : Nat) (calls : List Call) : Prop := ∀ requests, .arbitrate requests ∈ calls → requesting requests d = true

/-- The number of devices that are asked before device `d`. -/
def ahead (granted : Option Nat) (d : Nat) : Nat := (order granted).idxOf d

variable {a : Arbiter} {granted : Option Nat} {requests : UInt16} {call : Call} {calls : List Call} {n d : Nat}

/-! ### The cycle -/

theorem order_eq_rotate (granted : Option Nat) :
    order granted = (List.range arbiterSlots).rotate (granted.elim 0 (· + 1)) := by
  have hfirst : ∀ first, (List.range arbiterSlots).map (fun offset => (first + offset) % arbiterSlots) =
      (List.range arbiterSlots).rotate first := by
    intro first
    apply List.ext_getElem
    · simp
    · intro k _ _
      simp [List.getElem_rotate, Nat.add_comm]
  cases granted with
  | none => exact hfirst 0
  | some current => exact hfirst (current + 1)

theorem order_some {before behind : List Nat} (h : order granted = before ++ n :: behind) :
    order (some n) = behind ++ (before ++ [n]) := by
  have hn : (order granted)[before.length]? = some n := by simp [h]
  rw [order_eq_rotate] at h hn
  generalize granted.elim 0 (· + 1) = first at h hn
  -- the place of `n` in the cycle
  have hplace : n = (before.length + first) % arbiterSlots := by
    obtain ⟨hlt, hget⟩ := List.getElem?_eq_some_iff.1 hn
    rw [List.getElem_rotate] at hget
    simpa using hget.symm
  have hturn : (n + 1) % arbiterSlots = (first + (before ++ [n]).length) % arbiterSlots := by
    rw [List.length_append, List.length_singleton, hplace, arbiterSlots]
    omega
  calc order (some n) = (List.range arbiterSlots).rotate (n + 1) := order_eq_rotate _
    _ = (List.range arbiterSlots).rotate (first + (before ++ [n]).length) := by
      rw [← List.rotate_mod, ← List.rotate_mod _ (first + _), List.length_range, hturn]
    _ = (before ++ [n] ++ behind).rotate (before ++ [n]).length := by
      rw [← List.rotate_rotate, h, List.append_assoc, List.singleton_append]
    _ = behind ++ (before ++ [n]) := List.rotate_append_length_eq _ _

theorem ahead_lt (hd : d < arbiterSlots) : ahead granted d < arbiterSlots := by
  have hlt := List.idxOf_lt_length_of_mem (mem_order.2 hd : d ∈ order granted)
  simpa [ahead, order_eq_rotate] using hlt

theorem ahead_lt_of_pick? (h : pick? granted requests = some n) (hd : d < arbiterSlots)
    (hrequest : requesting requests d = true) (hne : n ≠ d) : ahead (some n) d < ahead granted d := by
  obtain ⟨-, before, behind, horder, hquiet⟩ := List.find?_eq_some_iff_append.1 h
  have hbefore : d ∉ before := by
    intro hmem
    have hsilent := hquiet d hmem
    rw [hrequest] at hsilent
    cases hsilent
  have hbehind : d ∈ behind := by
    have hmem : d ∈ order granted := mem_order.2 hd
    rw [horder] at hmem
    simpa [hbefore, hne.symm] using hmem
  rw [ahead, ahead, order_some horder, horder, List.idxOf_append_of_mem hbehind, List.idxOf_append_of_notMem hbefore,
    List.idxOf_cons_ne _ hne]
  omega

theorem lt_of_requesting (h : requesting requests n = true) : n < arbiterSlots := by
  by_contra hlarge
  have hpow : 2 ^ 16 ≤ 2 ^ n := Nat.pow_le_pow_right (by norm_num) (Nat.le_of_not_lt hlarge)
  rw [requesting, Nat.testBit_lt_two_pow (requests.toNat_lt.trans_le hpow)] at h
  cases h

theorem granted_arbitrate_spend (hgranted : a.granted = some n) (hrequest : requesting requests d = true) (hne : d ≠ n) :
    ∃ next, next ≠ n ∧ requesting requests next = true ∧ (a.spend.arbitrate requests).granted = some next := by
  have hkeeps : a.spend.keeps requests = false := by
    by_contra hkept
    obtain ⟨_, -, -, hunspent⟩ := keeps_iff.1 (eq_true_of_ne_false hkept)
    cases hunspent
  cases hpick : pick? (some n) requests with
  | none =>
    rw [pick?_eq_none_iff] at hpick
    rw [hpick d (lt_of_requesting hrequest)] at hrequest
    cases hrequest
  | some next =>
    refine ⟨next, ?_, requesting_of_pick? hpick, ?_⟩
    · -- the grantee is asked last
      rintro rfl
      exact (ahead_lt_of_pick? hpick (lt_of_requesting hrequest) hrequest hne.symm).false
    · have hpick' : pick? a.spend.granted requests = some next := by rw [← hpick, ← hgranted]; rfl
      rw [arbitrate, hkeeps, hpick']
      rfl

/-! ### New grants -/

theorem eq_zero_of_quiet (h : ∀ n < arbiterSlots, requesting requests n = false) : requests = 0 := by
  rw [← UInt16.toNat_inj]
  apply Nat.zero_of_testBit_eq_false
  intro n
  by_contra hset
  have hrequest : requesting requests n = true := eq_true_of_ne_false hset
  rw [h n (lt_of_requesting hrequest)] at hrequest
  cases hrequest

theorem requesting_of_granted (h : (a.arbitrate requests).granted = some n) :
    requesting requests n = true ∨ requests = 0 ∧ a.granted = some n := by
  have hedge := a.edge_spec requests
  generalize a.arbitrate requests = a' at h hedge
  cases hedge with
  | kept hkeeps =>
    obtain ⟨current, hcurrent, hrequest, -⟩ := keeps_iff.1 hkeeps
    have hsame : current = n := Option.some.inj (hcurrent.symm.trans h)
    exact .inl (hsame ▸ hrequest)
  | passed next _ picked =>
    cases h
    exact .inl (requesting_of_pick? picked)
  | lingered _ quiet => exact .inr ⟨eq_zero_of_quiet quiet, h⟩
  | recalled => cases h

theorem idleClock_spec (a : Arbiter) :
    a.idleClock.granted = a.granted ∧ a.idleClock.spent = a.spent ∨ a.idleClock.granted = none := by
  unfold idleClock
  split
  · split
    · exact .inl ⟨rfl, rfl⟩
    · exact .inr rfl
  · exact .inl ⟨rfl, rfl⟩

theorem won?_eq_some_iff : a.won? call = some n ↔
    (a.perform call).granted = some n ∧ (a.perform call).spent = false ∧ ¬ (a.granted = some n ∧ a.spent = false) := by
  cases call with
  | spend => simp [won?, perform, spend]
  | arbitrate requests =>
    simp only [won?, perform, arbitrate]
    by_cases hkeeps : a.keeps requests = true
    · rw [if_pos hkeeps, if_pos hkeeps]
      simp only [reduceCtorEq, false_iff]
      exact fun h => h.2.2 ⟨h.1, h.2.1⟩
    · rw [if_neg hkeeps, if_neg hkeeps]
      cases hpick : pick? a.granted requests with
      | some next =>
        simp only [Option.some.injEq, true_and]
        constructor
        · rintro rfl
          refine ⟨rfl, fun hheld => hkeeps ?_⟩
          exact keeps_iff.2 ⟨next, hheld.1, requesting_of_pick? hpick, hheld.2⟩
        · exact And.left
      | none =>
        simp only [reduceCtorEq, false_iff]
        rintro ⟨hgranted, hspent, hnew⟩
        rcases a.idleClock_spec with ⟨hsame, hused⟩ | hnone
        · exact hnew ⟨hsame ▸ hgranted, hused ▸ hspent⟩
        · rw [hnone] at hgranted
          cases hgranted

theorem kept_or_won (hd : d < arbiterSlots) (hrequest : requesting requests d = true) :
    (∃ n, a.granted = some n ∧ requesting requests n = true ∧ a.spent = false) ∨
      ∃ n, a.won? (.arbitrate requests) = some n := by
  by_cases hkeeps : a.keeps requests = true
  · exact .inl (keeps_iff.1 hkeeps)
  · right
    rw [won?, if_neg hkeeps]
    cases hpick : pick? a.granted requests with
    | none =>
      rw [pick?_eq_none_iff.1 hpick d hd] at hrequest
      cases hrequest
    | some n => exact ⟨n, rfl⟩

theorem granted_of_won?_eq_none (h : a.won? call = none) (hd : d < arbiterSlots) (hrequests : Requests d [call]) :
    (a.perform call).granted = a.granted := by
  cases call with
  | spend => rfl
  | arbitrate requests =>
    have hrequest : requesting requests d = true := hrequests requests (by simp)
    rcases kept_or_won (a := a) hd hrequest with hkept | ⟨n, hwon⟩
    · rw [perform, arbitrate, if_pos (keeps_iff.2 hkept)]
    · rw [h] at hwon
      cases hwon

theorem ahead_lt_of_won? (h : a.won? call = some n) (hd : d < arbiterSlots) (hrequests : Requests d [call]) (hne : n ≠ d) :
    ahead (some n) d < ahead a.granted d := by
  cases call with
  | spend => cases h
  | arbitrate requests =>
    rw [won?] at h
    split at h
    · cases h
    · exact ahead_lt_of_pick? h hd (hrequests requests (by simp)) hne

/-! ### Runs -/

theorem requests_cons : Requests d (call :: calls) ↔ Requests d [call] ∧ Requests d calls := by
  simp [Requests, or_imp, forall_and]

/-- Device `d` moves up with every new grant, until it wins one itself. -/
theorem pairwise_wins (hd : d < arbiterSlots) (h : Requests d calls) :
    ((a.wins calls).takeWhile (· ≠ d)).Pairwise (fun n n' => ahead (some n') d < ahead (some n) d) ∧
      ∀ n ∈ (a.wins calls).takeWhile (· ≠ d), ahead (some n) d < ahead a.granted d := by
  induction calls generalizing a with
  | nil => simp [wins]
  | cons call calls ih =>
    obtain ⟨hcall, hcalls⟩ := requests_cons.1 h
    obtain ⟨hlater, hfirst⟩ := ih (a := a.perform call) hcalls
    rw [wins]
    cases hwon : a.won? call with
    | none =>
      rw [granted_of_won?_eq_none hwon hd hcall] at hfirst
      exact ⟨hlater, hfirst⟩
    | some n =>
      rw [(won?_eq_some_iff.1 hwon).1] at hfirst
      rw [Option.toList_some, List.singleton_append]
      by_cases hne : n = d
      · simp [hne]
      · have hahead := ahead_lt_of_won? hwon hd hcall hne
        rw [List.takeWhile_cons_of_pos (by simpa using hne)]
        refine ⟨List.pairwise_cons.2 ⟨hfirst, hlater⟩, fun n' hn' => ?_⟩
        rcases List.mem_cons.1 hn' with rfl | hn'
        · exact hahead
        · exact (hfirst n' hn').trans hahead

/-- What is due to device `d` as long as it requests the bus at every edge. -/
structure Fair (a : Arbiter) (d : Nat) (calls : List Call) : Prop where
  /-- A win is a new grant: the device holds an unused grant that it did not hold before. -/
  new : ∀ call n, a.won? call = some n ↔
    (a.perform call).granted = some n ∧ (a.perform call).spent = false ∧ ¬ (a.granted = some n ∧ a.spent = false)
  /-- No other device wins twice before device `d` wins. -/
  once : ∀ n, ((a.wins calls).takeWhile (· ≠ d)).count n ≤ 1
  /-- At most fifteen new grants go to others before device `d` wins. -/
  soon : ((a.wins calls).takeWhile (· ≠ d)).length ≤ 15
  /-- Among sixteen new grants one goes to device `d`. -/
  due : 15 < (a.wins calls).length → ∃ k ≤ 15, (a.wins calls)[k]? = some d
  /-- Unless the grantee holds on to a grant that it has not used, each further edge gives a new grant. -/
  moves : ∀ requests, requesting requests d = true →
    (∃ n, a.granted = some n ∧ requesting requests n = true ∧ a.spent = false) ∨
      ∃ n, a.won? (.arbitrate requests) = some n
  /-- Whatever is requested, a grant goes to a device that requests the bus, or is left where it was because nobody does. -/
  requested : ∀ requests n, (a.arbitrate requests).granted = some n →
    requesting requests n = true ∨ requests = 0 ∧ a.granted = some n

/-- **Fairness.** Whoever keeps requesting the bus is granted it, and no other device is granted it anew more than once
before. -/
theorem fair_rotation (a : Arbiter) (hd : d < arbiterSlots) (h : Requests d calls) : Fair a d calls := by
  obtain ⟨hdecreasing, hbelow⟩ := pairwise_wins (a := a) hd h
  generalize hothers : (a.wins calls).takeWhile (· ≠ d) = others at hdecreasing hbelow
  -- the places that device `d` is moved up to
  have hplaces : (others.map fun n => ahead (some n) d).Nodup :=
    List.pairwise_map.2 (hdecreasing.imp fun hlt => hlt.ne')
  have hsoon : others.length ≤ 15 := by
    have hsubset : (others.map fun n => ahead (some n) d) ⊆ List.range 15 := by
      intro k hk
      obtain ⟨n, hn, rfl⟩ := List.mem_map.1 hk
      have hplace := hbelow n hn
      have hlast : ahead a.granted d < 16 := ahead_lt hd
      rw [List.mem_range]
      omega
    simpa using (List.subperm_of_subset hplaces hsubset).length_le
  refine ⟨fun _ _ => won?_eq_some_iff, ?_, hothers ▸ hsoon, fun hmany => ?_, fun _ => kept_or_won hd,
    fun _ _ => requesting_of_granted⟩
  · intro n
    rw [hothers]
    exact List.nodup_iff_count_le_one.1 hplaces.of_map n
  · have hsplit := List.takeWhile_append_dropWhile (p := (· ≠ d)) (l := a.wins calls)
    rw [hothers] at hsplit
    refine ⟨others.length, hsoon, ?_⟩
    cases hrest : (a.wins calls).dropWhile (· ≠ d) with
    | nil =>
      rw [hrest, List.append_nil] at hsplit
      rw [← hsplit] at hmany
      omega
    | cons n rest =>
      have hn : n = d := by
        have hhead := List.head_dropWhile_not (p := (· ≠ d)) (l := a.wins calls) (by rw [hrest]; simp)
        simp only [hrest, List.head_cons] at hhead
        simpa using hhead
      rw [← hsplit, hrest, hn, List.getElem?_append_right le_rfl]
      simp

/-- Everybody requests the bus, and whoever is granted it uses its grant. -/
def crowd : List Call := (List.replicate 16 [Call.arbitrate 65535, .spend]).flatten

/-- From an arbiter that has granted nothing yet, device 15 has to wait for all others. -/
theorem last_of_crowd : Fair (start .none 4 0) 15 crowd ∧ (start .none 4 0).wins crowd = List.range 16 := by
  have hrequests : Requests 15 crowd := by
    intro requests hmem
    have hall : requests = 65535 := by simpa [crowd] using hmem
    rw [hall]
    decide
  exact ⟨fair_rotation (start .none 4 0) (by decide) hrequests, by decide⟩

end Lockstep.Arbiter
