import Lockstep.Client
import Lockstep.Proofs.Message.RoundTrip
import Lockstep.Text.Bytes
/-!
# Streams of messages

Messages that are written one behind the other form a stream of bytes (`Message.stream`), and whoever reads the stream
has at any time seen some beginning of it, in chunks of any size. Both readers, the server's `Framer.drain` and the
client's `Incoming.next`, then take exactly the messages that were written, in order, whatever the chunks are
(`Framer.drain_of_stream`, `Incoming.next_of_stream`): they find a message as soon as all of it has arrived, and what
is left to them is a beginning of the messages that follow.

Proof. A word has no blanks, so the bytes of a line feed and of a carriage return do not occur in a written line but
for the line feed at its end: UTF-8 has ASCII bytes for ASCII characters only (`Text.exists_of_mem_bytes`). The first
line feed among the bytes that have arrived is therefore the end of the first message, and bytes without a line feed
are a part of the first message, for which the bound on lines leaves room (`Framer.next_of_stream`).
-/

namespace Lockstep

open Framer

/-- An ASCII byte stands for the character of the same number. -/
theorem Text.exists_of_mem_bytes {cs : List Char} {b : UInt8} (h : b ∈ bytes cs) (ascii : b.toNat < 128) :
    ∃ c ∈ cs, c.toNat = b.toNat := by
  obtain ⟨c, hc, hb⟩ := List.mem_flatMap.1 h
  refine ⟨c, hc, ?_⟩
  show c.val.toNat = b.toNat
  simp only [String.utf8EncodeChar] at hb
  split at hb
  · next hsmall =>
    obtain rfl := List.mem_singleton.1 hb
    rw [UInt8.toNat_ofNat']
    omega
  · -- every byte of a longer code has its highest bit set
    exfalso
    split at hb
    · simp only [List.mem_cons, List.not_mem_nil, or_false] at hb
      rcases hb with rfl | rfl <;> rw [UInt8.toNat_ofNat'] at ascii <;> omega
    · split at hb
      · simp only [List.mem_cons, List.not_mem_nil, or_false] at hb
        rcases hb with rfl | rfl | rfl <;> rw [UInt8.toNat_ofNat'] at ascii <;> omega
      · simp only [List.mem_cons, List.not_mem_nil, or_false] at hb
        rcases hb with rfl | rfl | rfl | rfl <;> rw [UInt8.toNat_ofNat'] at ascii <;> omega

namespace Message

def bytes (m : Message) : List UInt8 := m.line.toByteArray.data.toList

theorem bytes_eq (m : Message) : m.bytes = Text.bytes m.chars ++ [lineFeed] := by
  have hline : m.line.toByteArray = (Text.bytes (m.chars ++ ['\n'])).toByteArray := String.toByteArray_ofList
  rw [bytes, hline, List.toList_data_toByteArray, Text.bytes, List.flatMap_append]
  rfl

/-- The message can be written, and its line is within a bound. -/
structure Sendable (limit : Nat) (m : Message) : Prop where
  wireable : m.Wireable
  short : (Text.bytes m.chars).length ≤ limit

theorem Wireable.not_mem_bytes {m : Message} (h : m.Wireable) {c : Char} (hblank : Text.isBlank c = true)
    (hspace : c ≠ ' ') {b : UInt8} (hb : c.toNat = b.toNat) (ascii : b.toNat < 128) : b ∉ Text.bytes m.chars := by
  intro hmem
  obtain ⟨c', hc', heq⟩ := Text.exists_of_mem_bytes hmem ascii
  obtain rfl : c' = c := Char.toNat_inj.1 (heq.trans hb.symm)
  rw [h.isBlank_of_mem hc' hspace] at hblank
  cases hblank

theorem Wireable.lineFeed_not_mem {m : Message} (h : m.Wireable) : lineFeed ∉ Text.bytes m.chars :=
  h.not_mem_bytes (c := '\n') rfl (by decide) rfl (by decide)

theorem Wireable.lineOf_bytes {m : Message} (h : m.Wireable) : lineOf (Text.bytes m.chars) = .ok m.text := by
  have hreturn : (Text.bytes m.chars).getLast? ≠ some carriageReturn := fun hlast =>
    h.not_mem_bytes (c := '\r') rfl (by decide) rfl (by decide) (List.mem_of_getLast? hlast)
  have htext : String.fromUTF8? (Text.bytes m.chars).toByteArray = some m.text :=
    dif_pos (ByteArray.isValidUTF8_utf8Encode (l := m.chars))
  rw [lineOf, trimReturn, if_neg hreturn, htext]

def stream (ms : List Message) : List UInt8 := ms.flatMap bytes

@[simp] theorem stream_nil : stream [] = [] := rfl

theorem stream_cons (m : Message) (ms : List Message) :
    stream (m :: ms) = Text.bytes m.chars ++ lineFeed :: stream ms := by
  rw [stream, List.flatMap_cons, bytes_eq, List.append_assoc]
  rfl

theorem stream_append (ms ms' : List Message) : stream (ms ++ ms') = stream ms ++ stream ms' := List.flatMap_append

end Message

open Message

/-! ### The reader of the server -/

namespace Framer

variable {f : Framer} {rest : List UInt8} {ms : List Message}

theorem length_pending_le (h : f.pending ++ rest = stream ms) (hms : ∀ m ∈ ms, m.Sendable f.limit)
    (hnone : lineFeed ∉ f.pending) : f.pending.length ≤ f.limit := by
  cases ms with
  | nil =>
    obtain ⟨hnil, -⟩ := List.append_eq_nil_iff.1 h
    rw [hnil]
    exact Nat.zero_le _
  | cons m ms =>
    have hm := hms m (by simp)
    rw [stream_cons] at h
    rcases List.append_eq_append_iff.1 h with ⟨more, hmore, -⟩ | ⟨more, hmore, hrest⟩
    · have := hm.short
      rw [hmore, List.length_append] at this
      omega
    · cases more with
      | nil =>
        rw [hmore, List.append_nil]
        exact hm.short
      | cons b more =>
        -- what has arrived beyond the first message would begin with its line feed
        obtain ⟨rfl, -⟩ := List.cons.inj hrest
        rw [hmore] at hnone
        exact absurd (by simp) hnone

theorem next_of_stream (h : f.pending ++ rest = stream ms) (hms : ∀ m ∈ ms, m.Sendable f.limit) :
    (∃ hnone : lineFeed ∉ f.pending, f.next = (.ok none, f.lookedThrough hnone)) ∨
    ∃ m ms' pending, ms = m :: ms' ∧ f.next = (.ok (some m.text), { limit := f.limit, pending }) ∧
      pending ++ rest = stream ms' := by
  cases hcut : f.cut? with
  | none =>
    have hnone := cut?_eq_none_iff.1 hcut
    have hshort := length_pending_le h hms hnone
    refine .inl ⟨hnone, ?_⟩
    rw [next_of_not_mem hnone, if_neg (by omega)]
  | some found =>
    obtain ⟨segment, pending⟩ := found
    obtain ⟨hpending, hnot⟩ := cut?_eq_some_iff.1 hcut
    rw [hpending, List.append_assoc, List.cons_append] at h
    cases ms with
    | nil =>
      rw [stream_nil] at h
      exact absurd h (by simp)
    | cons m ms =>
      have hm := hms m (by simp)
      rw [stream_cons] at h
      -- a text is cut at its first line feed in one way only
      have hleft : Text.cutFirst? lineFeed (segment ++ lineFeed :: (pending ++ rest)) = some (segment, pending ++ rest) :=
        Text.cutFirst?_eq_some_iff.2 ⟨rfl, hnot⟩
      have hright : Text.cutFirst? lineFeed (Text.bytes m.chars ++ lineFeed :: stream ms) =
          some (Text.bytes m.chars, stream ms) :=
        Text.cutFirst?_eq_some_iff.2 ⟨rfl, hm.wireable.lineFeed_not_mem⟩
      rw [h, hright] at hleft
      obtain ⟨rfl, hrest⟩ := Prod.mk.inj (Option.some.inj hleft)
      refine .inr ⟨m, ms, pending, rfl, ?_, hrest.symm⟩
      rw [next_of_segment hpending hnot, if_neg (Nat.not_lt.2 hm.short), hm.wireable.lineOf_bytes]
      rfl

theorem eq_of_pending_eq_nil (h : f.pending = []) : f = .start f.limit := by
  obtain ⟨limit, pending, scanned, hle, hclear⟩ := f
  cases h
  obtain rfl := Nat.le_zero.1 hle
  rfl

theorem drain_of_none {f' : Framer} (h : f.next = (.ok none, f')) : f.drain = ([], none, f') := by
  rw [drain]
  split <;> simp_all

theorem drain_of_some {f' : Framer} {line : String} (h : f.next = (.ok (some line), f')) :
    f.drain = (line :: f'.drain.1, f'.drain.2) := by
  rw [drain]
  split <;> simp_all

theorem drain_of_stream (h : f.pending ++ rest = stream ms) (hms : ∀ m ∈ ms, m.Sendable f.limit) :
    ∃ taken left f', ms = taken ++ left ∧ f.drain = (taken.map text, none, f') ∧ f'.limit = f.limit ∧
      f'.pending ++ rest = stream left ∧ lineFeed ∉ f'.pending := by
  induction ms generalizing f with
  | nil =>
    rcases next_of_stream h hms with ⟨hnot, hnext⟩ | ⟨m, ms', pending, hcons, -⟩
    · exact ⟨[], [], _, rfl, drain_of_none hnext, rfl, h, hnot⟩
    · cases hcons
  | cons m ms ih =>
    rcases next_of_stream h hms with ⟨hnot, hnext⟩ | ⟨m', ms', pending, hcons, hnext, hpending⟩
    · exact ⟨[], m :: ms, _, rfl, drain_of_none hnext, rfl, h, hnot⟩
    · cases hcons
      obtain ⟨taken, left, last, rfl, hdrain, hlimit, hleft⟩ :=
        ih (f := { limit := f.limit, pending }) hpending fun m' hm' => hms m' (by simp [hm'])
      exact ⟨m :: taken, left, last, rfl, by rw [drain_of_some hnext, hdrain]; rfl, hlimit, hleft⟩

theorem drain_of_arrived (h : f.pending = stream ms) (hms : ∀ m ∈ ms, m.Sendable f.limit) :
    f.drain = (ms.map text, none, .start f.limit) := by
  have hall : f.pending ++ [] = stream ms := by rw [List.append_nil, h]
  obtain ⟨taken, left, f', rfl, hdrain, hlimit, hleft, hnot⟩ := drain_of_stream hall hms
  rw [List.append_nil] at hleft
  cases left with
  | nil =>
    rw [stream_nil] at hleft
    rw [hdrain, eq_of_pending_eq_nil hleft, hlimit, List.append_nil]
  | cons m left =>
    rw [hleft, stream_cons] at hnot
    exact absurd (by simp) hnot

end Framer

/-! ### The reader of a client -/

namespace Incoming

/-- The bytes that have arrived and not been taken. -/
def seen (i : Incoming) : List UInt8 := i.framer.pending ++ i.chunks.flatten

variable {rest : List UInt8} {ms : List Message}

theorem nextLine_of_stream {f : Framer} {chunks : List (List UInt8)} (h : seen ⟨f, chunks⟩ ++ rest = stream ms)
    (hms : ∀ m ∈ ms, m.Sendable f.limit) :
    ∃ i : Incoming, i.framer.limit = f.limit ∧
      ((lineFeed ∉ i.seen ∧ nextLine f chunks = (.error .disconnected, i) ∧ i.seen ++ rest = stream ms) ∨
        ∃ m ms', ms = m :: ms' ∧ nextLine f chunks = (.ok m.text, i) ∧ i.seen ++ rest = stream ms') := by
  induction chunks generalizing f with
  | nil =>
    have hseen : f.pending ++ rest = stream ms := by simpa [seen] using h
    rcases next_of_stream hseen hms with ⟨hnone, hnext⟩ | ⟨m, ms', pending, rfl, hnext, hpending⟩
    · refine ⟨⟨f.lookedThrough hnone, []⟩, rfl, .inl ⟨by simpa [seen] using hnone, ?_, h⟩⟩
      rw [nextLine, hnext]
    · refine ⟨⟨{ limit := f.limit, pending }, []⟩, rfl, .inr ⟨m, ms', rfl, ?_, by simpa [seen] using hpending⟩⟩
      rw [nextLine, hnext]
  | cons chunk chunks ih =>
    have hseen : f.pending ++ (chunk ++ chunks.flatten ++ rest) = stream ms := by
      simpa [seen, List.append_assoc] using h
    rcases next_of_stream hseen hms with ⟨hnone, hnext⟩ | ⟨m, ms', pending, rfl, hnext, hpending⟩
    · have hpush : seen ⟨(f.lookedThrough hnone).push chunk, chunks⟩ = seen ⟨f, chunk :: chunks⟩ := by
        simp [seen]
      have hstep : nextLine f (chunk :: chunks) = nextLine ((f.lookedThrough hnone).push chunk) chunks := by
        rw [nextLine, hnext]
      rw [hstep]
      exact ih (f := (f.lookedThrough hnone).push chunk) (by rw [hpush]; exact h) hms
    · refine ⟨⟨{ limit := f.limit, pending }, chunk :: chunks⟩, rfl, .inr ⟨m, ms', rfl, ?_, ?_⟩⟩
      · rw [nextLine, hnext]
      · simpa [seen, List.append_assoc] using hpending

theorem next_of_stream {i : Incoming} (h : i.seen ++ rest = stream ms) (hms : ∀ m ∈ ms, m.Sendable i.framer.limit) :
    ∃ i' : Incoming, i'.framer.limit = i.framer.limit ∧
      ((i.next = (.error .disconnected, i') ∧ (rest = [] → ms = []) ∧ i'.seen ++ rest = stream ms) ∨
        ∃ m ms', ms = m :: ms' ∧ i.next = (.ok m.wired, i') ∧ i'.seen ++ rest = stream ms') := by
  obtain ⟨i', hlimit, hline⟩ := nextLine_of_stream h hms
  refine ⟨i', hlimit, ?_⟩
  rcases hline with ⟨hnone, hline, hrest⟩ | ⟨m, ms', rfl, hline, hrest⟩
  · refine .inl ⟨by rw [next, hline], fun hend => ?_, hrest⟩
    cases ms with
    | nil => rfl
    | cons m ms =>
      -- all of the first message has arrived, with its line feed
      rw [hend, List.append_nil, stream_cons] at hrest
      rw [hrest] at hnone
      exact absurd (by simp) hnone
  · refine .inr ⟨m, ms', rfl, ?_, hrest⟩
    simp only [next, hline, decode_text (hms m (by simp)).wireable]

end Incoming

end Lockstep
