import Lockstep.Proofs.Model.Traffic
import Mathlib.Data.List.Nodup
/-!
# Reads by a sole master

With one master on a PCI bus the traffic is settled by its queries: as soon as the master asks for the bus it is granted
to it, and the target of a query answers at once. So a read takes four clocks, or eight if it has no target
(`Pci.Lineup.Reached.edge`), and what it brings is settled as well (`Pci.Lineup.brings_result`). A target counts the reads
that it answers (`Pci.Lineup.Reached.served_edge`).
-/

namespace Lockstep

namespace Pci

/-- A master and some targets, each of which holds a word. -/
structure Lineup where
  master : Device
  targets : List Device
  word : Device → UInt32

namespace Lineup

/-! ### What a read brings -/

section Reads

variable (l : Lineup)

/-- The devices of a bus with a master and some targets. -/
def devices : List Device := l.master :: l.targets

def Distinct : Prop := l.devices.Pairwise fun d e => d.ident ≠ e.ident

def holder? (q : Query) : Option Device := l.targets.find? fun d => d.ident.toNat = q.target

/-- What the target of a query answers, if there is one. -/
def reply? (q : Query) : Option Nat := (l.holder? q).map fun d => answer (l.word d).toNat q

def result (q : Query) : Nat := (l.reply? q).getD masterAbort

def clocks (q : Query) : Nat := if (l.reply? q).isSome then 4 else 8

def clocksOf : List Query → Nat
  | [] => 0
  | q :: qs => l.clocks q + clocksOf qs

/-- The target of a query brings the word that it holds from register 0, and nothing from the others. What has no target
is aborted. -/
structure Brings (q : Query) (n : Nat) : Prop where
  word : ∀ d ∈ l.targets, d.ident.toNat = q.target → q.register = 0 → n = (l.word d).toNat
  /-- It is left open what comes of registers beyond the sixty-fourth whose lowest six digits are 0. -/
  other : ∀ d ∈ l.targets, d.ident.toNat = q.target → q.register % 64 ≠ 0 → n = 0
  abort : (∀ d ∈ l.targets, d.ident.toNat ≠ q.target) → n = masterAbort

variable {l} {q : Query} {d : Device}

theorem Distinct.eq_of_ident_eq (h : l.Distinct) (hd : d ∈ l.targets) {e : Device} (he : e ∈ l.targets)
    (heq : d.ident = e.ident) : d = e :=
  List.inj_on_of_nodup_map (List.pairwise_map.2 (List.pairwise_cons.1 h).2) hd he heq

theorem Distinct.ident_ne (h : l.Distinct) (hd : d ∈ l.targets) : d.ident ≠ l.master.ident :=
  ((List.pairwise_cons.1 h).1 d hd).symm

theorem holder?_eq_none : l.holder? q = none ↔ ∀ d ∈ l.targets, d.ident.toNat ≠ q.target := by
  simp [holder?]

theorem Distinct.holder?_eq_some (h : l.Distinct) (hd : d ∈ l.targets) (htarget : d.ident.toNat = q.target) :
    l.holder? q = some d := by
  cases hfind : l.holder? q with
  | none => exact absurd htarget (holder?_eq_none.1 hfind d hd)
  | some e =>
    have hident : e.ident.toNat = q.target := by simpa using List.find?_some hfind
    rw [h.eq_of_ident_eq (List.mem_of_find?_eq_some hfind) hd (UInt32.toNat_inj.1 (hident.trans htarget.symm))]

theorem Distinct.reply?_eq_some (h : l.Distinct) (hd : d ∈ l.targets) (htarget : d.ident.toNat = q.target) :
    l.reply? q = some (answer (l.word d).toNat q) := by
  rw [reply?, h.holder?_eq_some hd htarget]
  rfl

theorem reply?_eq_none : l.reply? q = none ↔ ∀ d ∈ l.targets, d.ident.toNat ≠ q.target := by
  rw [reply?, Option.map_eq_none_iff, holder?_eq_none]

theorem brings_result (h : l.Distinct) (q : Query) : l.Brings q (l.result q) := by
  refine ⟨fun d hd htarget hregister => ?_, fun d hd htarget hregister => ?_, fun hnone => ?_⟩
  · rw [result, h.reply?_eq_some hd htarget, Option.getD_some, answer, hregister, if_pos rfl]
  · rw [result, h.reply?_eq_some hd htarget, Option.getD_some, answer, if_neg hregister]
  · rw [result, reply?_eq_none.2 hnone, Option.getD_none]

theorem clocksOf_append (qs qs' : List Query) : l.clocksOf (qs ++ qs') = l.clocksOf qs + l.clocksOf qs' := by
  induction qs with
  | nil => simp [clocksOf]
  | cons q qs ih => simp [clocksOf, ih, Nat.add_assoc]

end Reads

/-! ### Traffic of a sole master -/

section Traffic

variable (l : Lineup)

def answered? : Traffic → Option Nat
  | .data _ q 0 => l.reply? q
  | _ => none

/-- Targets answer at once, or not at all. -/
def Sound : Traffic → Prop
  | .quiet | .address _ _ => True
  | .data _ q clocks => clocks < claimTimeout ∧ (0 < clocks → l.reply? q = none)
  | .last _ q result => result = l.reply? q

end Traffic

end Lineup

namespace Traffic

def spent : Traffic → Nat
  | quiet => 0
  | address _ _ => 1
  | data _ _ clocks => 2 + clocks
  | last _ _ (some _) => 3
  | last _ _ none => 7

/-- The query that is done at the next edge. -/
def finished : Traffic → List Query
  | last _ q _ => [q]
  | quiet | address _ _ | data _ _ _ => []

/-- The answer that a target has given to the query at hand. -/
def given (i : Ident) : Traffic → Nat
  | last _ q (some _) => if q.target = i.toNat then 1 else 0
  | last _ _ none | quiet | address _ _ | data _ _ _ => 0

end Traffic

namespace Lineup

/-- The answers that a target has given when some queries are done. -/
def served (i : Ident) (done : List Query) (t : Traffic) : Nat := done.countP (fun q => q.target = i.toNat) + t.given i

/-- Where a sole master is after some edges, with some queries done. -/
structure Reached (l : Lineup) (done : List Query) (edges : Nat) (t : Traffic) (w : Worker Master Query) : Prop where
  results : w.results = done.map l.result
  owner : ∀ i, t.owner = some i → i = l.master.ident
  query : ∀ q, t.query? = some q → w.jobs.head? = some q
  sound : l.Sound t
  clock : if w.jobs = [] then l.clocksOf done ≤ edges else l.clocksOf done + t.spent = edges

variable {l : Lineup} {t t' : Traffic} {w w' : Worker Master Query} {done queries : List Query} {edges : Nat}
  {requests : Ident → Query → Prop} {granted value : Option Nat}

theorem reached_begin (queries : List Query) : l.Reached [] 0 .quiet (.begin Master.start .fresh queries []) := by
  obtain ⟨-, hresults⟩ := Worker.jobs_begin Master.start .fresh queries []
  refine ⟨hresults, ?_, ?_, trivial, ?_⟩
  · intro _ h
    cases h
  · intro _ h
    cases h
  · split <;> simp [clocksOf, Traffic.spent]

namespace Reached

theorem quiet (h : l.Reached done edges t w) (hjobs : w.jobs = []) : t = .quiet := by
  cases t with
  | quiet => rfl
  | address i q | data i q | last i q =>
    have hquery := h.query q rfl
    rw [hjobs] at hquery
    cases hquery

theorem ne_nil (h : l.Reached done edges t w) {q : Query} (hq : t.query? = some q) : w.jobs ≠ [] := fun hnil => by
  have hquery := h.query q hq
  rw [hnil] at hquery
  cases hquery

theorem tick (h : l.Reached done edges t w) (hbusy : w.jobs ≠ []) (hprogress : Master.Progress w w' none)
    (howner : ∀ i, t'.owner = some i → i = l.master.ident) (hquery : ∀ q, t'.query? = some q → w.jobs.head? = some q)
    (hsound : l.Sound t') (hspent : t'.spent = t.spent + 1) : l.Reached done (edges + 1) t' w' := by
  obtain ⟨hjobs, hresults⟩ := hprogress
  have hclock := h.clock
  rw [if_neg hbusy] at hclock
  refine ⟨hresults.trans h.results, howner, by rwa [hjobs], hsound, ?_⟩
  rw [hjobs, if_neg hbusy, hspent, ← hclock]
  rfl

theorem rest (h : l.Reached done edges .quiet w) (hdone : w.jobs = []) (hprogress : Master.Progress w w' none) :
    l.Reached done (edges + 1) .quiet w' := by
  obtain ⟨hjobs, hresults⟩ := hprogress
  have hclock := h.clock
  rw [if_pos hdone] at hclock
  refine ⟨hresults.trans h.results, h.owner, by rw [hjobs]; exact h.query, trivial, ?_⟩
  rw [hjobs, if_pos hdone]
  exact Nat.le_succ_of_le hclock

theorem finish {i : Ident} {q : Query} {result : Option Nat} (h : l.Reached done edges (.last i q result) w)
    (hprogress : Master.Progress w w' (some (result.getD masterAbort))) :
    l.Reached (done ++ [q]) (edges + 1) .quiet w' := by
  obtain ⟨hjobs, hresults⟩ := hprogress
  have hclock := h.clock
  have hsound : result = l.reply? q := h.sound
  rw [if_neg (h.ne_nil rfl)] at hclock
  have hlast : l.clocksOf (done ++ [q]) = edges + 1 := by
    rw [clocksOf_append, clocksOf, ← hclock, clocks, ← hsound]
    cases result <;> rfl
  refine ⟨?_, ?_, ?_, trivial, ?_⟩
  · rw [hresults, h.results, List.map_append, hsound]
    rfl
  · intro _ h
    cases h
  · intro _ h
    cases h
  · split
    · exact Nat.le_of_eq hlast
    · exact hlast

/-- **An edge.** The master gets on with its queries. -/
theorem edge (h : l.Reached done edges t w)
    (hrequests : ∀ i q, requests i q → i = l.master.ident ∧ t.owner ≠ some i ∧ w.jobs.head? = some q)
    (hgrant : t = .quiet → ∀ q, w.jobs.head? = some q → requests l.master.ident q ∧ granted = some l.master.ident.toNat)
    (hvalue : value = l.answered? t) (hnext : t.Next requests granted value t')
    (hprogress : Master.Progress w w' (t.result? l.master.ident)) :
    l.Reached (done ++ t.finished) (edges + 1) t' w' := by
  cases t with
  | quiet =>
    rw [Traffic.finished, List.append_nil]
    cases hnext with
    | taken i q _ _ request =>
      obtain ⟨rfl, -, hfirst⟩ := hrequests i q request
      refine h.tick (fun hnil => by rw [hnil] at hfirst; cases hfirst) hprogress (fun j hj => ?_) (fun q' hq' => ?_) trivial
        rfl
      · cases hj
        rfl
      · cases hq'
        exact hfirst
    | rest _ idle =>
      refine h.rest (List.head?_eq_none_iff.1 (Option.eq_none_iff_forall_ne_some.2 fun q hfirst => ?_)) hprogress
      obtain ⟨hrequest, hgranted⟩ := hgrant rfl q hfirst
      exact idle _ q hgranted hrequest
  | address i q =>
    rw [Traffic.finished, List.append_nil]
    cases hnext with
    | taken _ _ free | rest free => cases free
    | addressed =>
      exact h.tick (h.ne_nil rfl) hprogress h.owner h.query ⟨by decide, fun hpos => absurd hpos (Nat.lt_irrefl 0)⟩ rfl
  | data i q clocks =>
    rw [Traffic.finished, List.append_nil]
    have hsound : clocks < claimTimeout ∧ (0 < clocks → l.reply? q = none) := h.sound
    -- who has not answered at once does not answer
    have hnone : value = none → l.reply? q = none := by
      intro hnone
      rw [hvalue] at hnone
      cases clocks with
      | zero => exact hnone
      | succ clocks => exact hsound.2 (Nat.succ_pos clocks)
    cases hnext with
    | taken _ _ free | rest free => cases free
    | answered _ _ n hanswer => exact h.tick (h.ne_nil rfl) hprogress h.owner h.query (hanswer ▸ hvalue) rfl
    | waited _ _ _ hanswer patience =>
      exact h.tick (h.ne_nil rfl) hprogress h.owner h.query ⟨patience, fun _ => hnone hanswer⟩ rfl
    | aborted _ _ _ hanswer patience =>
      refine h.tick (h.ne_nil rfl) hprogress h.owner h.query (hnone hanswer).symm ?_
      have hlast : clocks = 4 := by
        have hpatience : claimTimeout = 5 := rfl
        omega
      rw [hlast]
      rfl
  | last i q result =>
    obtain rfl := h.owner i rfl
    rw [Traffic.result?, if_pos rfl] at hprogress
    cases hnext with
    | taken j q' _ _ request =>
      obtain ⟨rfl, hother, -⟩ := hrequests j q' request
      exact absurd rfl hother
    | rest => exact h.finish hprogress

theorem finished_append (h : l.Reached done edges t w)
    (hprogress : Master.Progress w w' (t.result? l.master.ident)) : t.finished ++ w'.jobs = w.jobs := by
  cases t with
  | quiet | address | data => exact hprogress.1
  | last i q result =>
    obtain rfl := h.owner i rfl
    rw [Traffic.result?, if_pos rfl] at hprogress
    obtain ⟨rest, hjobs⟩ := List.head?_eq_some_iff.1 (h.query q rfl)
    rw [hprogress.1, hjobs]
    rfl

theorem spent_lt (h : l.Reached done edges t w) {q : Query} (hq : w.jobs.head? = some q) : t.spent < l.clocks q := by
  have hsame : ∀ q', t.query? = some q' → q' = q := fun q' hq' => Option.some.inj ((h.query q' hq').symm.trans hq)
  have hsound := h.sound
  cases t with
  | quiet | address =>
    rw [clocks, Traffic.spent]
    split <;> decide
  | data i q' clocks' =>
    obtain rfl := hsame q' rfl
    obtain ⟨hpatience, hnone⟩ := hsound
    have hpatience : clocks' < 5 := hpatience
    rw [clocks, Traffic.spent]
    rcases Nat.eq_zero_or_pos clocks' with rfl | hpos
    · split <;> decide
    · rw [hnone hpos, Option.isSome_none, if_neg (by decide)]
      omega
  | last i q' result =>
    obtain rfl := hsame q' rfl
    obtain rfl : result = l.reply? q' := hsound
    rw [clocks]
    cases l.reply? q' <;> simp [Traffic.spent]

theorem clocksOf_le (h : l.Reached done edges t w) : l.clocksOf done ≤ edges := by
  have hclock := h.clock
  split at hclock
  · exact hclock
  · exact hclock ▸ Nat.le_add_right _ _

theorem le_done_iff (h : l.Reached done edges t w) {k : Nat} (hk : k ≤ (done ++ w.jobs).length) :
    k ≤ done.length ↔ l.clocksOf ((done ++ w.jobs).take k) ≤ edges := by
  refine ⟨fun hdone => ?_, fun hclocks => ?_⟩
  · have hcut : l.clocksOf done = l.clocksOf (done.take k) + l.clocksOf (done.drop k) := by
      rw [← clocksOf_append, List.take_append_drop]
    have hle := h.clocksOf_le
    rw [List.take_append_of_le_length hdone]
    omega
  · by_contra hmore
    have hclock := h.clock
    cases hjobs : w.jobs with
    | nil =>
      rw [hjobs, List.append_nil] at hk
      exact hmore hk
    | cons q rest =>
      rw [if_neg (by rw [hjobs]; exact List.cons_ne_nil q rest)] at hclock
      have hspent := h.spent_lt (by rw [hjobs, List.head?_cons])
      obtain ⟨m, rfl⟩ : ∃ m, k = done.length + (m + 1) := ⟨k - done.length - 1, by omega⟩
      rw [hjobs, List.take_length_add_append, List.take_succ_cons, clocksOf_append, clocksOf] at hclocks
      omega

theorem jobs_eq_nil_iff (h : l.Reached done edges t w) : w.jobs = [] ↔ l.clocksOf (done ++ w.jobs) ≤ edges := by
  refine ⟨fun hnil => ?_, fun hclocks => ?_⟩
  · rw [hnil, List.append_nil]
    exact h.clocksOf_le
  · have hall := (h.le_done_iff (Nat.le_refl _)).2 (by rwa [List.take_length])
    rw [List.length_append] at hall
    exact List.eq_nil_of_length_eq_zero (by omega)

theorem served_edge (h : l.Reached done edges t w) (hvalue : value = l.answered? t)
    (hnext : t.Next requests granted value t') {d : Device} (hd : d ∈ l.targets) :
    served d.ident (done ++ t.finished) t' = served d.ident done t + (t.asks d.ident).toList.length := by
  have hsound := h.sound
  -- a query that nobody answers is for no target
  have hother : ∀ {q : Query}, l.reply? q = none → q.target ≠ d.ident.toNat := fun hnone =>
    Ne.symm (reply?_eq_none.1 hnone d hd)
  rw [served, served, List.countP_append]
  cases hnext with
  | taken i q free | rest free =>
    cases t with
    | quiet => rfl
    | address | data => cases free
    | last j q' result =>
      obtain rfl : result = l.reply? q' := hsound
      cases hreply : l.reply? q' with
      | none => simp [Traffic.finished, Traffic.given, Traffic.asks, hother hreply]
      | some n => simp [Traffic.finished, Traffic.given, Traffic.asks]
  | addressed i q => rfl
  | answered i q n =>
    simp only [Traffic.finished, Traffic.given, Traffic.asks]
    split <;> rfl
  | waited i q clocks hanswer =>
    cases clocks with
    | zero => simp [Traffic.finished, Traffic.given, Traffic.asks, hother (hvalue.symm.trans hanswer)]
    | succ clocks => rfl
  | aborted i q clocks hanswer patience =>
    cases clocks with
    | zero => exact absurd (by decide) patience
    | succ clocks => rfl

end Reached

end Lineup

end Pci

end Lockstep
