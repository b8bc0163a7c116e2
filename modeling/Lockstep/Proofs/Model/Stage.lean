import Lockstep.Proofs.Model.Transfer
/-!
# Transfers one after the other

A master works through its transfers one by one, and transfers do not overlap: before the first edge of a transfer the
memory is at rest, before the second one its answer is on the wires (`Axi4.Stage`). Either step of a stage is one of the
edges of `Transfer` (`Axi4.Stage.edge`), and so every transfer takes two edges and brings what a memory with the writes
before it should bring (`Axi4.Stage.done_eq`).
-/

namespace Lockstep

namespace Axi4

/-! ### What transfers bring -/

/-- The data that a transfer writes to a word. Addresses and data have 32 bits. -/
def Transfer.writes? (t : Transfer) (k : Nat) : Option Nat :=
  match t with
  | .write address data => if address % 2 ^ 32 = k then some (data % 2 ^ 32) else none
  | .read _ => none

def lastWrite? (ts : List Transfer) (k : Nat) : Option Nat := ts.reverse.findSome? (·.writes? k)

/-- What a transfer brings after some others: 0 for a write, and for a read the data written last, 0 if there is
none. -/
def response (earlier : List Transfer) : Transfer → Nat
  | .write _ _ => 0
  | .read address => (lastWrite? earlier (address % 2 ^ 32)).getD 0

/-- What each of some transfers brings after those before it. -/
def responses (ts : List Transfer) : List Nat := ts.mapIdx fun i t => response (ts.take i) t

theorem lastWrite?_concat (ts : List Transfer) (t : Transfer) (k : Nat) :
    lastWrite? (ts ++ [t]) k = (t.writes? k).or (lastWrite? ts k) := by
  rw [lastWrite?, List.reverse_append, List.reverse_singleton, List.singleton_append, List.findSome?_cons, lastWrite?]
  cases t.writes? k <;> rfl

theorem lastWrite?_lt {ts : List Transfer} {k data : Nat} (h : lastWrite? ts k = some data) : data < 2 ^ 32 := by
  obtain ⟨t, -, ht⟩ := List.exists_of_findSome?_eq_some h
  cases t with
  | write address data' =>
    rw [Transfer.writes?] at ht
    split at ht
    · cases ht
      exact Nat.mod_lt _ (by decide)
    · cases ht
  | read address => cases ht

theorem responses_concat (ts : List Transfer) (t : Transfer) :
    responses (ts ++ [t]) = responses ts ++ [response ts t] := by
  rw [responses, List.mapIdx_concat, List.take_left]
  congr 1
  refine List.mapIdx_eq_mapIdx_iff.2 fun i hi => ?_
  rw [List.take_append_of_le_length (Nat.le_of_lt hi)]

theorem outcome_eq {before : SortedMap Nat Nat} {done : List Transfer} (h : ∀ k, before.get? k = lastWrite? done k)
    (t : Transfer) : outcome before t = response done t := by
  cases t with
  | write address data => rfl
  | read address =>
    rw [outcome, response, h]
    cases hlast : lastWrite? done (address % 2 ^ 32) with
    | none => rfl
    | some data => exact Nat.mod_eq_of_lt (lastWrite?_lt hlast)

theorem Memory.Replying.get?_words {mem : Memory} {before : SortedMap Nat Nat} {t : Transfer}
    (h : mem.Replying before t) {done : List Transfer} (hbefore : ∀ k, before.get? k = lastWrite? done k) (k : Nat) :
    mem.words.get? k = lastWrite? (done ++ [t]) k := by
  rw [lastWrite?_concat, ← hbefore]
  cases t with
  | write address data =>
    obtain ⟨-, -, -, -, -, -, hwords⟩ := h
    rw [hwords, SortedMap.get?_insert, Transfer.writes?]
    by_cases hk : address % 2 ^ 32 = k
    · rw [if_pos hk.symm, if_pos hk]
      rfl
    · rw [if_neg (Ne.symm hk), if_neg hk]
      rfl
  | read address =>
    obtain ⟨-, -, -, -, -, -, hwords⟩ := h
    rw [hwords]
    rfl

/-! ### Stages -/

/-- How far the two sides have got with some transfers after a number of rising edges. -/
inductive Stage (jobs : List Transfer) (edges : Nat) : Worker Master Transfer → Memory → Prop where
  /-- Some transfers are done, and the next one, if there is one, is on the wires. -/
  | resting {w : Worker Master Transfer} {mem : Memory} (done : List Transfer) (split : jobs = done ++ w.jobs)
      (results : w.results = responses done) (begun : ∀ t, w.jobs.head? = some t → w.model.Begun t) (rest : mem.Rest)
      (words : ∀ k, mem.words.get? k = lastWrite? done k)
      (passed : 2 * done.length = edges ∨ (w.jobs = [] ∧ 2 * done.length ≤ edges)) : Stage jobs edges w mem
  /-- The answer to the next transfer is on the wires. -/
  | replying {w : Worker Master Transfer} {mem : Memory} (done : List Transfer) (t : Transfer)
      (before : SortedMap Nat Nat) (split : jobs = done ++ w.jobs) (results : w.results = responses done)
      (first : w.jobs.head? = some t) (sent : w.model.Sent t) (reply : mem.Replying before t)
      (words : ∀ k, before.get? k = lastWrite? done k) (passed : 2 * done.length + 1 = edges) : Stage jobs edges w mem

variable {jobs : List Transfer} {edges : Nat} {w : Worker Master Transfer} {mem : Memory} {seen seen' : Signals}

theorem begun_begin {m : Master} (h : m.Idle) {t : Transfer} {results : List Nat}
    (ht : (Worker.begin Master.start m jobs results).jobs.head? = some t) :
    (Worker.begin Master.start m jobs results).model.Begun t := by
  cases jobs with
  | nil => cases ht
  | cons t' jobs =>
    cases ht
    exact h.begun_start _

theorem stage_start (jobs : List Transfer) : Stage jobs 0 (.begin Master.start .fresh jobs []) .fresh := by
  obtain ⟨hjobs, hresults⟩ := Worker.jobs_begin Master.start .fresh jobs []
  exact .resting [] hjobs.symm hresults (fun t => begun_begin Master.idle_fresh) Memory.rest_fresh (fun _ => rfl) (.inl rfl)

theorem Stage.edge (h : Stage jobs edges w mem) (hjobs : w.jobs ≠ []) (hseen : seen.Relays mem.drive Memory.reach)
    (hseen' : seen'.Relays w.model.drive Master.reach) :
    ∃ w' mem', w.edge Master.start (Master.edge seen) = .ok w' ∧ mem.edge seen' = .ok mem' ∧
      Stage jobs (edges + 1) w' mem' := by
  cases h with
  | resting done split results begun rest words passed =>
    obtain ⟨t, ht⟩ : ∃ t, w.jobs.head? = some t := ⟨_, List.head?_eq_some_head hjobs⟩
    obtain ⟨m', hm, hsent⟩ := (begun t ht).edge rest hseen
    obtain ⟨mem', hmem, hreply⟩ := rest.edge (begun t ht) hseen'
    refine ⟨{ w with model := m' }, mem', by rw [Worker.edge, hm]; rfl, hmem,
      .replying done t mem.words split results ht hsent hreply words ?_⟩
    rw [passed.resolve_right fun h => hjobs h.1]
  | replying done t before split results first sent reply words passed =>
    obtain ⟨m', hm, hidle⟩ := sent.edge reply hseen
    obtain ⟨mem', hmem, hrest, hwords⟩ := reply.edge sent hseen'
    obtain ⟨hjobs', hresults'⟩ := Worker.jobs_begin Master.start m' w.jobs.tail (w.results ++ [outcome before t])
    have hcons : w.jobs = t :: w.jobs.tail := by
      obtain ⟨ts, hts⟩ := List.head?_eq_some_iff.1 first
      rw [hts, List.tail_cons]
    refine ⟨.begin Master.start m' w.jobs.tail (w.results ++ [outcome before t]), mem', by rw [Worker.edge, hm]; rfl, hmem,
      .resting (done ++ [t]) ?_ ?_ (fun t' => begun_begin hidle) hrest (fun k => ?_) (.inl ?_)⟩
    · rw [hjobs', List.append_assoc, List.singleton_append, ← hcons]
      exact split
    · rw [hresults', results, outcome_eq words, responses_concat]
    · rw [hwords, reply.get?_words words]
    · rw [List.length_append, List.length_singleton]
      omega

theorem Stage.later (h : Stage jobs edges w mem) (hjobs : w.jobs = []) : mem.Rest ∧ Stage jobs (edges + 1) w mem := by
  cases h with
  | resting done split results begun rest words passed =>
    refine ⟨rest, .resting done split results begun rest words (.inr ⟨hjobs, ?_⟩)⟩
    omega
  | replying done t before split results first =>
    rw [hjobs] at first
    cases first

theorem Stage.done_eq (h : Stage jobs edges w mem) :
    w.results = responses (jobs.take (edges / 2)) ∧ (w.jobs = [] ↔ jobs.length ≤ edges / 2) ∧
      (w.jobs = [] → ∀ k, mem.words.get? k = lastWrite? jobs k) := by
  cases h with
  | resting done split results begun rest words passed =>
    have hlength : jobs.length = done.length + w.jobs.length := by rw [split, List.length_append]
    have htake : jobs.take (edges / 2) = done ∧ (w.jobs = [] ↔ jobs.length ≤ edges / 2) := by
      rw [← List.length_eq_zero_iff]
      rcases passed with hpassed | ⟨hjobs, hpassed⟩
      · rw [← hpassed, Nat.mul_div_cancel_left _ (by decide)]
        exact ⟨by rw [split, List.take_left], by omega⟩
      · rw [hjobs, List.length_nil] at hlength ⊢
        refine ⟨?_, by omega⟩
        rw [split, hjobs, List.append_nil]
        exact List.take_of_length_le (by omega)
    refine ⟨by rw [htake.1, results], htake.2, fun hjobs => ?_⟩
    rw [split, hjobs, List.append_nil]
    exact words
  | replying done t before split results first sent reply words passed =>
    have hlength : jobs.length = done.length + w.jobs.length := by rw [split, List.length_append]
    have hedges : edges / 2 = done.length := by omega
    have hjobs : w.jobs ≠ [] := by
      rintro hjobs
      rw [hjobs] at first
      cases first
    have hpos := List.length_pos_iff.2 hjobs
    refine ⟨by rw [hedges, split, List.take_left, results], ⟨fun h => absurd h hjobs, fun h => ?_⟩, fun h => absurd h hjobs⟩
    omega

/-- After some rounds. The first of every four is an edge. -/
theorem Stage.jobs_eq_nil_iff {n : Nat} (h : Stage jobs ((n + 3) / 4) w mem) :
    w.jobs = [] ↔ 8 * jobs.length - 3 ≤ n := by
  rw [h.done_eq.2.1]
  omega

theorem Stage.round {n : Nat} (h : Stage jobs ((n + 3) / 4) w mem) (hjobs : w.jobs ≠ [])
    (hseen : seen.Relays mem.drive Memory.reach) (hseen' : seen'.Relays w.model.drive Master.reach) :
    ∃ w' mem', Stage jobs ((n + 1 + 3) / 4) w' mem' ∧
      (if n % 4 = 0 then (Actor.axi4Master w).edge seen = .ok (.axi4Master w')
        else Actor.axi4Master w' = .axi4Master w) ∧
      (if n % 4 = 0 then (Actor.axi4Memory mem).edge seen' = .ok (.axi4Memory mem')
        else Actor.axi4Memory mem' = .axi4Memory mem) := by
  by_cases hn : n % 4 = 0
  · obtain ⟨w', mem', hw, hmem, hstage⟩ := h.edge hjobs hseen hseen'
    refine ⟨w', mem', ?_, ?_, ?_⟩
    · rwa [show (n + 1 + 3) / 4 = (n + 3) / 4 + 1 by omega]
    · rw [if_pos hn, Actor.edge, hw]
      rfl
    · rw [if_pos hn, Actor.edge, hmem]
      rfl
  · refine ⟨w, mem, ?_, by rw [if_neg hn], by rw [if_neg hn]⟩
    rwa [show (n + 1 + 3) / 4 = (n + 3) / 4 by omega]

theorem Stage.round_later {n : Nat} (h : Stage jobs ((n + 3) / 4) w mem) (hjobs : w.jobs = [])
    (hseen : seen.Relays .empty Master.reach) :
    Stage jobs ((n + 1 + 3) / 4) w mem ∧
      if n % 4 = 0 then (Actor.axi4Memory mem).edge seen = .ok (.axi4Memory mem)
        else Actor.axi4Memory mem = .axi4Memory mem := by
  obtain ⟨hrest, hlater⟩ := h.later hjobs
  by_cases hn : n % 4 = 0
  · rw [if_pos hn, Actor.edge, hrest.edge_of_empty hseen, show (n + 1 + 3) / 4 = (n + 3) / 4 + 1 by omega]
    exact ⟨hlater, rfl⟩
  · rw [if_neg hn, show (n + 1 + 3) / 4 = (n + 3) / 4 by omega]
    exact ⟨h, rfl⟩

end Axi4

end Lockstep
