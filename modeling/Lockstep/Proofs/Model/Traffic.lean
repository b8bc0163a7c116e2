import Lockstep.Proofs.Model.Cycle
/-!
# The traffic on a PCI bus

At any time there is at most one master whose cycle has begun, and at most one target that answers. Where the bus is
between two rising edges (`Pci.Traffic`) says who they are, what everybody drives (`Pci.Master.Follows`,
`Pci.Target.Follows`) and so what is on the wires (`Pci.Carries`). Who sees these wires at an edge acts so that everybody
follows the traffic again, which has moved on by then (`Pci.Traffic.Next`).
-/

namespace Lockstep

namespace Pci

/-! ### Where the bus is -/

/-- Where a bus is between two rising edges. -/
inductive Traffic where
  /-- No cycle is in progress. -/
  | quiet
  /-- The address of a query is on the wires. -/
  | address (owner : Ident) (query : Query)
  /-- A master waits for data, and has done so for some clocks. -/
  | data (owner : Ident) (query : Query) (clocks : Nat)
  /-- The cycle ends with this result. -/
  | last (owner : Ident) (query : Query) (result : Option Nat)

namespace Traffic

def owner : Traffic → Option Ident
  | quiet => none
  | address i _ | data i _ _ | last i _ _ => some i

def query? : Traffic → Option Query
  | quiet => none
  | address _ q | data _ q _ | last _ q _ => some q

def cycle : Traffic → Cycle
  | quiet => .idle
  | address _ _ => .addressing
  | data _ _ clocks => .waiting clocks
  | last _ _ result => .closing result

def IsFree : Traffic → Prop
  | quiet | last _ _ _ => True
  | address _ _ | data _ _ _ => False

/-- The query that a target is selected to answer. -/
def selects (i : Ident) : Traffic → Option Query
  | address _ q => if q.target = i.toNat then some q else none
  | _ => none

/-- The query that a target answers. Nobody answers more than one clock after the address. -/
def asks (i : Ident) : Traffic → Option Query
  | data _ q 0 => if q.target = i.toNat then some q else none
  | _ => none

/-- The result that a master comes to at the next edge. -/
def result? (i : Ident) : Traffic → Option Nat
  | last j _ result => if j = i then some (result.getD masterAbort) else none
  | _ => none

def frame : Traffic → Level
  | quiet => .released
  | address _ _ => .zero
  | data _ _ _ | last _ _ _ => .one

def irdy : Traffic → Level
  | quiet | address _ _ => .released
  | data _ _ _ => .zero
  | last _ _ _ => .one

def cbe : Traffic → Bundle
  | quiet => .released 8
  | address _ _ => lowPart configRead 4 8
  | data _ _ _ | last _ _ _ => lowPart 0 4 8

/-- What the master drives on the address wires. -/
def ad : Traffic → Bundle
  | address _ q => lowPart (Master.address q) 32 64
  | quiet | data _ _ _ | last _ _ _ => .released 64

/-- What is on the address wires when some target gives an answer, or none does. -/
def wiresAd (value : Option Nat) : Traffic → Bundle
  | address _ q => lowPart (Master.address q) 32 64
  | quiet | data _ _ _ | last _ _ _ => replyWires value

/-- How the traffic moves on at a rising edge, by whom the bus is granted to and who asks for it, and by the answer that
is on the wires. -/
inductive Next (requests : Ident → Query → Prop) (granted value : Option Nat) : Traffic → Traffic → Prop where
  | taken {t : Traffic} (i : Ident) (q : Query) (free : t.IsFree) (grant : granted = some i.toNat) (request : requests i q) :
      Next requests granted value t (.address i q)
  | rest {t : Traffic} (free : t.IsFree) (idle : ∀ i q, granted = some i.toNat → ¬ requests i q) :
      Next requests granted value t .quiet
  | addressed (i : Ident) (q : Query) : Next requests granted value (.address i q) (.data i q 0)
  | answered (i : Ident) (q : Query) (n : Nat) (answer : value = some n) :
      Next requests granted value (.data i q 0) (.last i q (some n))
  | waited (i : Ident) (q : Query) (clocks : Nat) (answer : value = none) (patience : clocks + 1 < claimTimeout) :
      Next requests granted value (.data i q clocks) (.data i q (clocks + 1))
  | aborted (i : Ident) (q : Query) (clocks : Nat) (answer : value = none) (patience : ¬ clocks + 1 < claimTimeout) :
      Next requests granted value (.data i q clocks) (.last i q none)

variable {requests : Ident → Query → Prop} {granted value : Option Nat} {t t' : Traffic}

theorem exists_next (h : value ≠ none → ∃ i q, t = .data i q 0) : ∃ t', Next requests granted value t t' := by
  have hfree : t.IsFree → ∃ t', Next requests granted value t t' := by
    intro hfree
    by_cases hrequest : ∃ i q, granted = some (UInt32.toNat i) ∧ requests i q
    · obtain ⟨i, q, hgrant, hrequest⟩ := hrequest
      exact ⟨_, .taken i q hfree hgrant hrequest⟩
    · exact ⟨_, .rest hfree fun i q hgrant hrequest' => hrequest ⟨i, q, hgrant, hrequest'⟩⟩
  cases t with
  | quiet => exact hfree trivial
  | last i q result => exact hfree trivial
  | address i q => exact ⟨_, .addressed i q⟩
  | data i q clocks =>
    cases value with
    | none =>
      by_cases hpatience : clocks + 1 < claimTimeout
      · exact ⟨_, .waited i q clocks rfl hpatience⟩
      · exact ⟨_, .aborted i q clocks rfl hpatience⟩
    | some n =>
      obtain ⟨_, _, heq⟩ := h (by simp)
      cases heq
      exact ⟨_, .answered i q n rfl⟩

theorem Next.owner_eq (h : Next requests granted value t t') :
    (t.IsFree ∧ ∀ i, t'.owner = some i → granted = some i.toNat ∧ ∃ q, requests i q) ∨
      (¬ t.IsFree ∧ t'.owner = t.owner) := by
  cases h with
  | taken i q free grant request =>
    refine .inl ⟨free, fun j hj => ?_⟩
    cases hj
    exact ⟨grant, q, request⟩
  | rest free => exact .inl ⟨free, fun j hj => by cases hj⟩
  | addressed | answered | waited | aborted => exact .inr ⟨id, rfl⟩

theorem Next.asks_eq (h : Next requests granted value t t') (i : Ident) : t'.asks i = t.selects i := by
  cases h with
  | addressed | answered | waited | aborted => rfl
  | @taken t _ _ free | @rest t free =>
    cases t with
    | quiet | last => rfl
    | address | data => exact absurd free id

theorem selects_of_asks {i : Ident} {q : Query} (h : t.asks i = some q) : t.selects i = none := by
  cases t with
  | data | quiet | last => rfl
  | address => cases h

end Traffic

/-! ### What is on the wires -/

/-- The wires of a bus, by where it is and by the answer that some target gives. -/
structure Carries (t : Traffic) (value : Option Nat) (ps : Participants) : Prop where
  frame : resolve ps "FRAME#" 1 = .ofLevel t.frame
  irdy : resolve ps "IRDY#" 1 = .ofLevel t.irdy
  cbe : resolve ps "C/BE#" 8 = t.cbe
  devsel : resolve ps "DEVSEL#" 1 = .ofLevel (readyLevel value)
  trdy : resolve ps "TRDY#" 1 = .ofLevel (readyLevel value)
  ad : resolve ps "AD" 64 = t.wiresAd value

/-- What a participant sees: the shared wires that it does not drive itself, its select wire and its grant. -/
structure Sees (seen : Signals) (ps : Participants) (granted : Option Nat) (drive : Signals) (i : Ident) : Prop where
  shared : ∀ name width, (name, width) ∈ sharedWires → drive.wires name width = .released width →
    seen.get? name = some (resolve ps name width)
  idsel : seen.bit "IDSEL" = idsel ps i
  grant : seen.bit "GNT#" = grantLevel granted i

namespace Sees

variable {seen drive : Signals} {ps : Participants} {granted : Option Nat} {i : Ident}

theorem bit_eq (h : Sees seen ps granted drive i) {name : String} {level : Level} (hmem : (name, 1) ∈ sharedWires)
    (hdrive : drive.wires name 1 = .ofLevel .released) (hwires : resolve ps name 1 = .ofLevel level) :
    seen.bit name = level := by
  rw [Signals.bit_eq (h.shared name 1 hmem hdrive), hwires]
  rfl

end Sees

/-! ### Masters -/

/-- A master does what the traffic says. -/
inductive Master.Follows (t : Traffic) (i : Ident) (w : Worker Master Query) : Prop where
  | resting (other : t.owner ≠ some i) (jobs : w.jobs = []) (cycle : w.model.cycle = .idle)
      (lines : Lines.Free w.model.drive)
  | requesting (other : t.owner ≠ some i) (q : Query) (first : w.jobs.head? = some q)
      (cycle : w.model.cycle = .requesting q)
      (lines : Lines w.model.drive .zero .released .released (.released 64) (.released 8))
  | owning (own : t.owner = some i) (first : w.jobs.head? = t.query?) (cycle : w.model.cycle = t.cycle)
      (lines : Lines w.model.drive .one t.frame t.irdy t.ad t.cbe)

namespace Master

variable {t t' : Traffic} {i : Ident} {w : Worker Master Query} {seen : Signals} {ps : Participants}
  {requests : Ident → Query → Prop} {granted value : Option Nat}

theorem follows_begin {m : Master} (hother : t.owner ≠ some i) (hcycle : m.cycle = .idle) (hlines : Lines.Free m.drive)
    (jobs : List Query) (results : List Nat) : Follows t i (.begin start m jobs results) := by
  cases jobs with
  | nil => exact .resting hother rfl hcycle hlines
  | cons q jobs => exact .requesting hother q rfl rfl hlines.request

/-- What a worker has made of its jobs at an edge. -/
def Progress (w w' : Worker Master Query) : Option Nat → Prop
  | none => w'.jobs = w.jobs ∧ w'.results = w.results
  | some n => w'.jobs = w.jobs.tail ∧ w'.results = w.results ++ [n]

theorem edge_of_idle (hcycle : w.model.cycle = .idle) : w.edge start (Master.edge seen) = .ok w := by
  rw [Worker.edge, Master.edge, hcycle]
  rfl

theorem edge_of_requesting {q : Query} (hcycle : w.model.cycle = .requesting q)
    (hlines : Lines w.model.drive .zero .released .released (.released 64) (.released 8))
    (hcarries : Carries t value ps) (hsees : Sees seen ps granted w.model.drive i) :
    (granted = some i.toNat ∧ t.IsFree →
      w.edge start (Master.edge seen) = .ok { w with model := ⟨addressPhase q w.model.drive, .addressing⟩ }) ∧
    (¬ (granted = some i.toNat ∧ t.IsFree) → w.edge start (Master.edge seen) = .ok w) := by
  have hframe := hsees.bit_eq (by decide) hlines.frame hcarries.frame
  have hirdy := hsees.bit_eq (by decide) hlines.irdy hcarries.irdy
  have hgrant : seen.bit "GNT#" = .zero ↔ granted = some i.toNat := by
    rw [hsees.grant, grantLevel]
    split <;> simp [*]
  have hfree : (seen.bit "FRAME#" ≠ .zero ∧ seen.bit "IRDY#" ≠ .zero) ↔ t.IsFree := by
    rw [hframe, hirdy]
    cases t <;> simp [Traffic.frame, Traffic.irdy, Traffic.IsFree]
  refine ⟨fun h => ?_, fun h => ?_⟩
  · rw [Worker.edge, Master.edge, hcycle]
    dsimp only
    rw [if_pos ⟨hgrant.2 h.1, hfree.2 h.2⟩]
    rfl
  · rw [Worker.edge, Master.edge, hcycle]
    dsimp only
    rw [if_neg fun h' => h ⟨hgrant.1 h'.1, hfree.1 h'.2⟩]
    rfl

theorem edge_of_waiting {clocks : Nat} (hcycle : w.model.cycle = .waiting clocks)
    (hlines : Lines w.model.drive .one .one .zero (.released 64) (lowPart 0 4 8))
    (hwithin : w.model.drive.Within Master.reach) (hcarries : Carries t value ps)
    (hsees : Sees seen ps granted w.model.drive i) :
    (∀ n, value = some n → n < 2 ^ 32 → t.wiresAd value = lowPart n 32 64 →
      w.edge start (Master.edge seen) =
        .ok { w with model := ⟨w.model.drive.setBit "IRDY#" .one, .closing (some n)⟩ }) ∧
    (value = none → clocks + 1 < claimTimeout →
      w.edge start (Master.edge seen) = .ok { w with model := ⟨w.model.drive, .waiting (clocks + 1)⟩ }) ∧
    (value = none → ¬ clocks + 1 < claimTimeout →
      w.edge start (Master.edge seen) = .ok { w with model := ⟨w.model.drive.setBit "IRDY#" .one, .closing none⟩ }) := by
  have hdevsel := hsees.bit_eq (by decide) (hwithin.wires_eq (by decide) 1) hcarries.devsel
  have htrdy := hsees.bit_eq (by decide) (hwithin.wires_eq (by decide) 1) hcarries.trdy
  have had := hsees.shared "AD" 64 (by decide) hlines.ad
  rw [hcarries.ad] at had
  refine ⟨fun n hvalue hn hwires => ?_, fun hvalue hpatience => ?_, fun hvalue hpatience => ?_⟩
  · rw [hvalue, readyLevel] at hdevsel htrdy
    rw [hwires] at had
    rw [Worker.edge, Master.edge, hcycle]
    dsimp only
    rw [if_pos ⟨hdevsel, htrdy⟩, Signals.require, had]
    dsimp only [Except.map]
    rw [dataWord_lowPart hn]
  · rw [hvalue, readyLevel] at hdevsel
    rw [Worker.edge, Master.edge, hcycle]
    dsimp only
    rw [if_neg (by simp [hdevsel]), if_pos hpatience]
    rfl
  · rw [hvalue, readyLevel] at hdevsel
    rw [Worker.edge, Master.edge, hcycle]
    dsimp only
    rw [if_neg (by simp [hdevsel]), if_neg hpatience]
    rfl

theorem edge_of_closing {result : Option Nat} (hcycle : w.model.cycle = .closing result) :
    w.edge start (Master.edge seen) =
      .ok (.begin start ⟨releaseAll w.model.drive, .idle⟩ w.jobs.tail (w.results ++ [result.getD masterAbort])) := by
  rw [Worker.edge, Master.edge, hcycle]
  rfl

theorem progress_begin (w : Worker Master Query) (m : Master) (n : Nat) :
    Progress w (.begin start m w.jobs.tail (w.results ++ [n])) (some n) := by
  obtain ⟨jobs, results⟩ := Worker.jobs_begin start m w.jobs.tail (w.results ++ [n])
  exact ⟨jobs, results⟩

theorem Follows.edge (h : Follows t i w) (hwithin : w.model.drive.Within Master.reach) (hcarries : Carries t value ps)
    (hsees : Sees seen ps granted w.model.drive i) (hnext : t.Next requests granted value t')
    (hself : ∀ q, requests i q ↔ w.model.cycle = .requesting q) (hvalue : ∀ n, value = some n → n < 2 ^ 32) :
    ∃ w', w.edge start (Master.edge seen) = .ok w' ∧ Follows t' i w' ∧ Progress w w' (t.result? i) := by
  have hresult : t.owner ≠ some i → t.result? i = none := by
    intro hother
    cases t with
    | last j q result => exact if_neg fun heq => hother (congrArg some heq)
    | quiet | address | data => rfl
  cases h with
  | resting other jobs cycle lines =>
    rw [hresult other]
    refine ⟨w, edge_of_idle cycle, .resting (fun hown => ?_) jobs cycle lines, rfl, rfl⟩
    rcases hnext.owner_eq with ⟨-, howner⟩ | ⟨-, howner⟩
    · obtain ⟨-, q, hq⟩ := howner i hown
      rw [hself, cycle] at hq
      cases hq
    · exact other (howner ▸ hown)
  | requesting other q first cycle lines =>
    rw [hresult other]
    obtain ⟨htakes, hwaits⟩ := edge_of_requesting cycle lines hcarries hsees
    by_cases hgrant : granted = some i.toNat ∧ t.IsFree
    · refine ⟨_, htakes hgrant, ?_, rfl, rfl⟩
      have hnext' : t' = .address i q := by
        cases hnext with
        | taken j q' free grant request =>
          obtain rfl : i = j := UInt32.toNat_inj.1 (Option.some.inj (hgrant.1.symm.trans grant))
          rw [hself, cycle] at request
          cases request
          rfl
        | rest free idle => exact absurd ((hself q).2 cycle) (idle i q hgrant.1)
        | addressed | answered | waited | aborted => exact absurd hgrant.2 id
      rw [hnext']
      exact .owning rfl first rfl (lines.addressPhase q)
    · refine ⟨w, hwaits hgrant, .requesting (fun hown => ?_) q first cycle lines, rfl, rfl⟩
      rcases hnext.owner_eq with ⟨hfree, howner⟩ | ⟨-, howner⟩
      · exact hgrant ⟨(howner i hown).1, hfree⟩
      · exact other (howner ▸ hown)
  | owning own first cycle lines =>
    have hrequests : ∀ q, ¬ requests i q := fun q hq => by
      rw [hself, cycle] at hq
      cases t <;> cases hq
    cases t with
    | quiet => cases own
    | address j q =>
      cases own
      cases hnext with
      | taken _ _ free | rest free => exact absurd free id
      | addressed =>
        refine ⟨{ w with model := ⟨dataPhase w.model.drive, .waiting 0⟩ }, ?_, .owning rfl first rfl
          (lines.dataPhase (width_lowPart _ _ _)), rfl, rfl⟩
        rw [Worker.edge, Master.edge, cycle]
        rfl
    | data j q clocks =>
      cases own
      obtain ⟨hanswered, hwaited, haborted⟩ := edge_of_waiting cycle lines hwithin hcarries hsees
      cases hnext with
      | taken _ _ free | rest free => exact absurd free id
      | answered _ _ n answer =>
        exact ⟨_, hanswered n answer (hvalue n answer) (by rw [answer]; rfl), .owning rfl first rfl lines.close, rfl, rfl⟩
      | waited _ _ _ answer patience => exact ⟨_, hwaited answer patience, .owning rfl first rfl lines, rfl, rfl⟩
      | aborted _ _ _ answer patience => exact ⟨_, haborted answer patience, .owning rfl first rfl lines.close, rfl, rfl⟩
    | last j q result =>
      cases own
      have hother : t'.owner ≠ some i := fun hown => by
        rcases hnext.owner_eq with ⟨-, howner⟩ | ⟨hbusy, -⟩
        · obtain ⟨-, q', hq'⟩ := howner i hown
          exact hrequests q' hq'
        · exact hbusy trivial
      refine ⟨_, edge_of_closing cycle, follows_begin hother rfl ?_ _ _, ?_⟩
      · exact lines.releaseAll rfl (width_lowPart _ _ _)
      · rw [Traffic.result?, if_pos rfl]
        exact progress_begin w _ _

end Master

/-! ### Targets -/

/-- What a target with some identity answers to a query. It knows the lowest six digits of the number of the register. -/
def answer (id : Nat) (q : Query) : Nat := if q.register % 64 = 0 then id else 0

/-- A target does what the traffic says. -/
structure Target.Follows (t : Traffic) (i : Ident) (g : Target) : Prop where
  claimed : g.claimed = (t.asks i).isSome
  replies : Replies g.drive ((t.asks i).map (answer g.id))

namespace Target

variable {t t' : Traffic} {i : Ident} {g : Target} {seen : Signals} {ps : Participants}
  {requests : Ident → Query → Prop} {granted value : Option Nat}

theorem edge_of_claimed {q : Query} (hclaimed : g.claimed = true) (hasks : t.asks i = some q)
    (hwithin : g.drive.Within Target.reach) (hcarries : Carries t value ps) (hsees : Sees seen ps granted g.drive i) :
    g.edge seen = .ok g.complete := by
  have hirdy := hsees.bit_eq (by decide) (hwithin.wires_eq (by decide) 1) hcarries.irdy
  have hzero : t.irdy = .zero := by
    cases t with
    | data => rfl
    | quiet | address | last => cases hasks
  rw [edge, if_pos hclaimed, if_pos (hirdy.trans hzero)]

theorem edge_of_other (hclaimed : g.claimed = false) (hother : isAddressed seen = false) : g.edge seen = .ok g := by
  rw [edge, hclaimed, hother]
  rfl

theorem isAddressed_eq (hwithin : g.drive.Within Target.reach) (hcarries : Carries t value ps)
    (hsees : Sees seen ps granted g.drive i) (hi : i.toNat < arbiterSlots) (hvalid : ∀ q, t.query? = some q → q.Valid) :
    isAddressed seen = (t.selects i).isSome := by
  have hframe := hsees.bit_eq (by decide) (hwithin.wires_eq (by decide) 1) hcarries.frame
  cases t with
  | quiet | data | last => simp [isAddressed, hframe, Traffic.frame, Traffic.selects]
  | address j q =>
    have hcommand := hsees.shared "C/BE#" 8 (by decide) (hwithin.wires_eq (by decide) 8)
    have hselect : seen.bit "IDSEL" = .ofBool (q.target = i.toNat) := by
      rw [hsees.idsel, idsel, hcarries.ad]
      exact idsel_address (hvalid q rfl) hi
    rw [hcarries.cbe] at hcommand
    simp only [isAddressed, hframe, hselect, hcommand, Traffic.frame, Traffic.cbe, Option.bind_some,
      command_lowPart (show configRead < 16 by decide), Traffic.selects]
    by_cases htarget : q.target = i.toNat <;> simp [htarget, Level.ofBool]

theorem edge_of_selected {q : Query} (hclaimed : g.claimed = false) (hselects : t.selects i = some q)
    (hreplies : Replies g.drive none) (hcarries : Carries t value ps) (hsees : Sees seen ps granted g.drive i)
    (haddressed : isAddressed seen = true) : g.edge seen = .ok (g.claim (q.register % 64)) := by
  have had := hsees.shared "AD" 64 (by decide) hreplies.ad
  have hwires : t.wiresAd value = lowPart (Master.address q) 32 64 := by
    cases t with
    | address j q' =>
      rw [Traffic.selects] at hselects
      split at hselects <;> cases hselects
      rfl
    | quiet | data | last => cases hselects
  rw [hcarries.ad, hwires] at had
  rw [edge, hclaimed, haddressed]
  simp only [Bool.false_eq_true, if_false, if_true, Signals.require, had, Except.map, register_address]

theorem Follows.edge (h : Follows t i g) (hwithin : g.drive.Within Target.reach) (hcarries : Carries t value ps)
    (hsees : Sees seen ps granted g.drive i) (hi : i.toNat < arbiterSlots) (hvalid : ∀ q, t.query? = some q → q.Valid)
    (hnext : t.Next requests granted value t') :
    ∃ g', g.edge seen = .ok g' ∧ Follows t' i g' ∧ g'.id = g.id ∧ g'.served = g.served + (t.asks i).toList.length := by
  obtain ⟨hclaimed, hreplies⟩ := h
  have hafter := hnext.asks_eq i
  have haddressed := isAddressed_eq hwithin hcarries hsees hi hvalid
  cases hasks : t.asks i with
  | some q =>
    rw [Traffic.selects_of_asks hasks] at hafter
    rw [hasks] at hclaimed
    refine ⟨_, edge_of_claimed hclaimed hasks hwithin hcarries hsees, ⟨?_, ?_⟩, rfl, rfl⟩
    · rw [hafter]
      rfl
    · rw [hafter]
      exact hreplies.complete
  | none =>
    rw [hasks] at hclaimed hreplies
    cases hselects : t.selects i with
    | none =>
      rw [hselects] at hafter haddressed
      refine ⟨g, edge_of_other hclaimed haddressed, ⟨?_, ?_⟩, rfl, rfl⟩
      · rw [hafter]
        exact hclaimed
      · rw [hafter]
        exact hreplies
    | some q =>
      rw [hselects] at hafter haddressed
      refine ⟨_, edge_of_selected hclaimed hselects hreplies hcarries hsees haddressed, ⟨?_, ?_⟩, rfl, rfl⟩
      · rw [hafter]
        rfl
      · rw [hafter]
        exact Replies.claim g _

end Target

end Pci

end Lockstep
