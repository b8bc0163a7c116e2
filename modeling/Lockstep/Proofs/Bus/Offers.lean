import Lockstep.Proofs.Bus.Terms
/-!
# What participants drive, by their history

A slot keeps only the latest values that its participant has offered. This module says which these are in terms of all
that happened: a participant drives what it offered last, nothing on a signal that it never mentioned, and nothing at
all once it has been retired (`Bus.drive`, `Bus.Course.recalls`).
-/

namespace Lockstep

namespace Bus

/-- The value of a signal in the latest READY accepted from participant `i` that mentions it. -/
def lastOffer? (i : Ident) (name : String) (trace : Trace) : Option Bundle :=
  (trace.filterMap fun e => (offer? i e).bind (·.get? name)).getLast?

/-- Participant `i` has finished, broken the protocol or lost its connection. -/
def retired (i : Ident) (trace : Trace) : Bool := trace.any (retires i)

/-- What participant `i` drives on a signal of some width after all that has happened. -/
def drive (i : Ident) (name : String) (width : Nat) (trace : Trace) : Bundle :=
  if retired i trace then .released width else (lastOffer? i name trace).getD (.released width)

theorem lastOffer?_append (i : Ident) (name : String) (earlier later : Trace) :
    lastOffer? i name (earlier ++ later) = (lastOffer? i name later).or (lastOffer? i name earlier) := by
  rw [lastOffer?, List.filterMap_append, List.getLast?_append]
  rfl

section Snoc

variable (i : Ident) (trace : Trace) (e : Bus × Operation)

theorem lastOffer?_snoc (name : String) :
    lastOffer? i name (trace ++ [e]) = ((offer? i e).bind (·.get? name)).or (lastOffer? i name trace) := by
  rw [lastOffer?_append, lastOffer?]
  congr 1
  cases h : (offer? i e).bind (·.get? name) <;> simp [h]

theorem retired_snoc : retired i (trace ++ [e]) = (retired i trace || retires i e) := by
  simp [retired]

end Snoc

variable {i : Ident} {trace : Trace}

theorem lastOffer?_of_silent (h : ∀ e ∈ trace, offer? i e = none) (name : String) : lastOffer? i name trace = none := by
  rw [lastOffer?, List.getLast?_eq_none_iff, List.filterMap_eq_nil_iff]
  intro e he
  rw [h e he]
  rfl

theorem drive_of_retired (h : retired i trace = true) (name : String) (width : Nat) :
    drive i name width trace = .released width := if_pos h

theorem drive_of_not_retired (h : retired i trace = false) (name : String) (width : Nat) :
    drive i name width trace = (lastOffer? i name trace).getD (.released width) := by
  rw [drive, h, if_neg Bool.false_ne_true]

/-- A slot holds what the history of its participant says. -/
structure Recalls (trace : Trace) (i : Ident) (s : Slot) : Prop where
  finished : s.finished = retired i trace
  driven : ∀ name, s.driven.get? name = (s.widths.get? name).map fun width => drive i name width trace
  /-- Whoever has not been admitted has not offered anything. -/
  silent : s.claimed = false → ∀ e ∈ trace, offer? i e = none

theorem Recalls.drives {s : Slot} (h : Recalls trace i s) {name : String} {width : Nat}
    (hwidth : s.widths.get? name = some width) : s.drives name = drive i name width trace := by
  rw [Slot.drives, h.driven, hwidth]
  rfl

theorem offer?_of_unclaimed {b : Bus} {op : Operation} (huses : b.Uses op) {slot : Slot}
    (hs : b.participants.get? i = some slot) (hfree : slot.claimed = false) : offer? i (b, op) = none := by
  cases op with
  | line j text =>
    by_cases hj : j = i
    · subst hj
      obtain ⟨speaker, hspeaker, hclaimed⟩ := huses
      rw [hs] at hspeaker
      cases hspeaker
      rw [hfree] at hclaimed
      cases hclaimed
    · simp [offer?, hj]
  | handshake | disconnect | advance | tearDown => rfl

theorem Recalls.change {b : Bus} {op : Operation} {slot slot' : Slot} (h : Recalls trace i slot) (hb : b.Sound)
    (hfits : slot.Fits) (huses : b.Uses op) (hs : b.participants.get? i = some slot)
    (hchange : b.Change i slot op slot') : Recalls (trace ++ [(b, op)]) i slot' := by
  have hsilent : slot'.claimed = false → ∀ e ∈ trace ++ [(b, op)], offer? i e = none := by
    intro hfree' e he
    have hfree : slot.claimed = false := by
      cases hclaimed : slot.claimed with
      | false => rfl
      | true =>
        rw [hchange.claimed_eq hclaimed] at hfree'
        cases hfree'
    rcases List.mem_append.1 he with he | he
    · exact h.silent hfree e he
    · obtain rfl := List.mem_singleton.1 he
      exact offer?_of_unclaimed huses hs hfree
  cases hchange with
  | admitted greeting admits =>
    obtain ⟨-, -, -, hfree, -⟩ := admits_spec hb admits
    have hlive : retired i (trace ++ [(b, op)]) = false := by
      rw [retired_snoc, ← h.finished, ((hb.slots hs).vacant hfree).2.1, greeting]
      rfl
    have hnothing : ∀ name, lastOffer? i name (trace ++ [(b, op)]) = none :=
      lastOffer?_of_silent fun e he => by
        rcases List.mem_append.1 he with he | he
        · exact h.silent hfree e he
        · rw [List.mem_singleton.1 he, greeting]
          rfl
    refine ⟨((hb.slots hs).vacant hfree).2.1.trans hlive.symm, fun name => ?_, hsilent⟩
    -- everything starts released
    simp only [drive_of_not_retired hlive, hnothing, Option.getD_none]
    exact SortedMap.get?_mapValues _ _ _
  | offered time signals accepted fits stays unfinished =>
    have hlive : retired i trace = false := by rw [← h.finished, unfinished]
    refine ⟨?_, fun name => ?_, hsilent⟩
    · rw [retired_snoc, stays, Bool.or_false]
      exact h.finished
    · have hdrive : ∀ width, drive i name width (trace ++ [(b, op)]) =
          (signals.get? name).getD (drive i name width trace) := by
        intro width
        rw [drive_of_not_retired (by rw [retired_snoc, hlive, stays]; rfl), drive_of_not_retired hlive, lastOffer?_snoc,
          accepted]
        cases hv : signals.get? name <;> simp [hv]
      simp only [hdrive]
      show (signals.over slot.driven).get? name = _
      rw [Signals.get?_over, h.driven]
      cases hv : signals.get? name with
      | none => rfl
      | some v =>
        rw [show (slot.offer time signals).widths = slot.widths from rfl, Widths.fault?_eq_none_iff.1 fits name v hv]
        rfl
  | left hretires =>
    have hgone : retired i (trace ++ [(b, op)]) = true := by rw [retired_snoc, hretires, Bool.or_true]
    refine ⟨hgone.symm, fun name => ?_, hsilent⟩
    show slot.park.driven.get? name = _
    simp only [drive_of_retired hgone]
    rw [hfits.driven_park]
    exact SortedMap.get?_mapValues _ _ _
  | kept silent stays same =>
    have hretired : retired i (trace ++ [(b, op)]) = retired i trace := by
      rw [retired_snoc]
      cases hretires : retires i (b, op) with
      | false => rw [Bool.or_false]
      | true => rw [← h.finished, stays hretires, Bool.or_true]
    have hoffer : ∀ name, lastOffer? i name (trace ++ [(b, op)]) = lastOffer? i name trace := by
      intro name
      rw [lastOffer?_snoc, silent]
      rfl
    refine ⟨by rw [same.finished, hretired, h.finished], fun name => ?_, hsilent⟩
    simp only [same.driven, same.widths, drive, hretired, hoffer]
    exact h.driven name

/-- **What participants drive.** At any time every slot holds what the history of its participant says. -/
theorem Course.recalls {c : BusConfig} {start b : Bus} (hstart : ofConfig c = .ok start) (h : Course start trace b)
    (horderly : Orderly trace) : ∀ i slot, b.participants.get? i = some slot → Recalls trace i slot := by
  induction h with
  | nil =>
    obtain ⟨-, engine, -, rfl⟩ := ofConfig_spec hstart
    intro i slot hs
    obtain ⟨d, -, rfl, -⟩ := vacant_of_ofDevices hs
    exact ⟨rfl, fun name => rfl, fun _ e he => absurd he List.not_mem_nil⟩
  | @snoc trace b h op ih =>
    obtain ⟨hbefore, huses⟩ := orderly_snoc.1 horderly
    have hsound := h.sound hstart hbefore
    intro i slot' hs'
    obtain ⟨slot, hs, hchange⟩ := exists_change hsound huses hs'
    have hfits := h.fitted (fitted_ofConfig hstart) i slot hs
    exact (ih hbefore i slot hs).change hsound hfits huses hs hchange

end Bus

end Lockstep
