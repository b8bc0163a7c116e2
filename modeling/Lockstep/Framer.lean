import Lockstep.Message
/-!
# Cutting a byte stream into lines

Bytes arrive in chunks of any size. A framer keeps those that have not yet been taken as a line, and yields
the next complete line, without its line feed and without one carriage return before it. It remembers how far
it has looked for a line feed, so that no byte of a long line is looked at twice. A line longer than the limit
is refused for good: the bytes stay, so the framer refuses whatever comes after them.
-/

namespace Lockstep

/-- The longest line that either side accepts by default, in bytes. -/
def maxLineLength : Nat := 64 * 1024

namespace Framer

def lineFeed : UInt8 := 10

def carriageReturn : UInt8 := 13

end Framer

/-- The bytes that have arrived and not been taken, and the bound on a line. -/
structure Framer where
  limit : Nat
  pending : List UInt8 := []
  /-- The number of pending bytes that have been looked at. -/
  scanned : Nat := 0
  scanned_le : scanned ≤ pending.length := by exact Nat.zero_le _
  /-- There is no line feed among them. -/
  clear : Framer.lineFeed ∉ pending.take scanned := by exact List.not_mem_nil
deriving DecidableEq

namespace Framer

def start (limit : Nat) : Framer := { limit }

def push (f : Framer) (bytes : List UInt8) : Framer where
  limit := f.limit
  pending := f.pending ++ bytes
  scanned := f.scanned
  scanned_le := by
    rw [List.length_append]
    exact Nat.le_add_right_of_le f.scanned_le
  clear := by
    rw [List.take_append_of_le_length f.scanned_le]
    exact f.clear

/-- A segment before a line feed, without the carriage return that may end it. -/
def trimReturn (segment : List UInt8) : List UInt8 :=
  if segment.getLast? = some carriageReturn then segment.dropLast else segment

/-- The text of a segment before a line feed. -/
def lineOf (segment : List UInt8) : Except LineError String :=
  match String.fromUTF8? (trimReturn segment).toByteArray with
  | some line => .ok line
  | none => .error .notText

/-- Cuts the pending bytes at the first line feed, which is looked for among the bytes that have not been
looked at. -/
def cut? (f : Framer) : Option (List UInt8 × List UInt8) :=
  (Text.cutFirst? lineFeed (f.pending.drop f.scanned)).map fun (found, rest) =>
    (f.pending.take f.scanned ++ found, rest)

theorem cut?_eq (f : Framer) : f.cut? = Text.cutFirst? lineFeed f.pending := by
  have hpending := List.take_append_drop f.scanned f.pending
  unfold cut?
  cases hcut : Text.cutFirst? lineFeed (f.pending.drop f.scanned) with
  | none =>
    have hnone := Text.cutFirst?_eq_none_iff.1 hcut
    refine (Text.cutFirst?_eq_none_iff.2 fun hmem => ?_).symm
    rw [← hpending] at hmem
    exact (List.mem_append.1 hmem).elim f.clear hnone
  | some parts =>
    obtain ⟨hfound, hnot⟩ := Text.cutFirst?_eq_some_iff.1 hcut
    refine (Text.cutFirst?_eq_some_iff.2 ⟨?_, fun hmem => ?_⟩).symm
    · rw [List.append_assoc, ← hfound, hpending]
    · exact (List.mem_append.1 hmem).elim f.clear hnot

theorem cut?_eq_none_iff {f : Framer} : f.cut? = none ↔ lineFeed ∉ f.pending := by
  rw [cut?_eq, Text.cutFirst?_eq_none_iff]

theorem cut?_eq_some_iff {f : Framer} {segment rest : List UInt8} :
    f.cut? = some (segment, rest) ↔ f.pending = segment ++ lineFeed :: rest ∧ lineFeed ∉ segment := by
  rw [cut?_eq, Text.cutFirst?_eq_some_iff]

def lookedThrough (f : Framer) (h : lineFeed ∉ f.pending) : Framer where
  limit := f.limit
  pending := f.pending
  scanned := f.pending.length
  scanned_le := Nat.le_refl _
  clear := by rwa [List.take_length]

@[simp] theorem pending_start (limit : Nat) : (start limit).pending = [] := rfl

@[simp] theorem limit_start (limit : Nat) : (start limit).limit = limit := rfl

@[simp] theorem pending_push (f : Framer) (bytes : List UInt8) : (f.push bytes).pending = f.pending ++ bytes := rfl

@[simp] theorem limit_push (f : Framer) (bytes : List UInt8) : (f.push bytes).limit = f.limit := rfl

@[simp] theorem pending_lookedThrough (f : Framer) (h : lineFeed ∉ f.pending) :
    (f.lookedThrough h).pending = f.pending := rfl

@[simp] theorem limit_lookedThrough (f : Framer) (h : lineFeed ∉ f.pending) :
    (f.lookedThrough h).limit = f.limit := rfl

/-- Takes the next line, if it is complete. A line that is no text is taken away with its fault. -/
def next (f : Framer) : Except LineError (Option String) × Framer :=
  match h : f.cut? with
  | none =>
    (if f.limit < f.pending.length then .error (.tooLong f.limit) else .ok none,
      f.lookedThrough (cut?_eq_none_iff.1 h))
  | some (segment, rest) =>
    if f.limit < segment.length then (.error (.tooLong f.limit), f)
    else ((lineOf segment).map some, { limit := f.limit, pending := rest })

theorem next_of_not_mem {f : Framer} (h : lineFeed ∉ f.pending) : f.next =
    (if f.limit < f.pending.length then .error (.tooLong f.limit) else .ok none, f.lookedThrough h) := by
  unfold next
  split
  · rfl
  · next segment rest hcut =>
    rw [(cut?_eq_some_iff.1 hcut).1] at h
    exact absurd (by simp) h

theorem next_of_segment {f : Framer} {segment rest : List UInt8} (h : f.pending = segment ++ lineFeed :: rest)
    (hnot : lineFeed ∉ segment) : f.next =
    if f.limit < segment.length then (.error (.tooLong f.limit), f)
    else ((lineOf segment).map some, { limit := f.limit, pending := rest }) := by
  have hcut := cut?_eq_some_iff.2 ⟨h, hnot⟩
  unfold next
  split
  · next hnone =>
    rw [hcut] at hnone
    cases hnone
  · next hsome =>
    rw [hcut] at hsome
    cases hsome
    rfl

theorem length_pending_next {f f' : Framer} {line : String} (h : f.next = (.ok (some line), f')) :
    f'.pending.length < f.pending.length := by
  cases hcut : f.cut? with
  | none =>
    rw [next_of_not_mem (cut?_eq_none_iff.1 hcut)] at h
    split at h <;> simp at h
  | some parts =>
    obtain ⟨hpending, hnot⟩ := cut?_eq_some_iff.1 hcut
    rw [next_of_segment hpending hnot] at h
    split at h
    · simp at h
    · obtain ⟨_, rfl⟩ := Prod.mk.inj h
      simp [hpending]
      omega

/-- Takes lines until none is complete. The second component is the fault that stopped it, if any. -/
def drain (f : Framer) : List String × Option LineError × Framer :=
  match _ : f.next with
  | (.ok (some line), f') =>
    let (lines, fault, last) := drain f'
    (line :: lines, fault, last)
  | (.ok none, f') => ([], none, f')
  | (.error e, f') => ([], some e, f')
termination_by f.pending.length
decreasing_by exact length_pending_next ‹_›

end Framer

end Lockstep
