import Lockstep.Proofs.Message.Frames
/-!
# Waiting for an edge

A client that waits for an edge offers the same signals again and again, until an UNTIL brings the transition or
something else comes. What it reads is fixed by the bytes of the stream (`Incoming.replies`), in whatever chunks they
arrive. So the outcome can be read off from the UNTILs at the head of the stream: the wait ends with the first of them
at which the clock makes the transition, and if there is none it fails for the reason that ends them
(`Attached.wait_stops_at_first_edge`).

Proof. The next message is the next reply, and taking it leaves the replies behind it (`Incoming.next_of_replies`). The
rest is induction on the replies, along the loop.

A client counts the UNTILs that it has read, in a word of 64 bits. An UNTIL takes a byte at least, so a client to which
fewer than 2⁶⁴ bytes are sent does not count beyond its word (`Attached.steps_lt`).
-/

namespace Lockstep

open Framer

/-! ### What a client reads -/

/-- What a client makes of a line, or of what is no line. -/
def ClientError.ofLine : Except LineError String → Except ClientError Message
  | .error cause => .error (.malformed cause)
  | .ok line =>
    match Message.decode line with
    | .error cause => .error (.malformed cause)
    | .ok m => .ok m

namespace Incoming

/-- All that a client will read from a stream before it ends. -/
def replies (i : Incoming) : List (Except ClientError Message) :=
  (frames i.framer.limit i.seen).map fun frame => ClientError.ofLine frame.result

variable {f f' : Framer}

theorem nextLine_of_error {e : LineError} (h : f.next = (.error e, f')) (chunks : List (List UInt8)) :
    nextLine f chunks = (.error (.malformed e), ⟨f', chunks⟩) := by
  cases chunks <;> rw [nextLine, h]

theorem nextLine_of_line {line : String} (h : f.next = (.ok (some line), f')) (chunks : List (List UInt8)) :
    nextLine f chunks = (.ok line, ⟨f', chunks⟩) := by
  cases chunks <;> rw [nextLine, h]

theorem nextLine_of_frame {frame : Frame} (h : f.next = (frame.result.map some, f'))
    (hpending : f.pending = frame.taken ++ f'.pending) (hline : frame.IsLine f.limit) (chunks : List (List UInt8)) :
    nextLine f chunks = (frame.result.mapError .malformed, ⟨f', chunks⟩) ∧
      frames f.limit (seen ⟨f, chunks⟩) = frame :: frames f.limit (seen ⟨f', chunks⟩) := by
  constructor
  · cases hresult : frame.result with
    | ok line => exact nextLine_of_line (by rw [h, hresult]; rfl) chunks
    | error e => exact nextLine_of_error (by rw [h, hresult]; rfl) chunks
  · rw [seen, hpending, List.append_assoc, hline.frames_append]
    rfl

theorem nextLine_spec (f : Framer) (chunks : List (List UInt8)) : ∃ i : Incoming, i.framer.limit = f.limit ∧
    ((nextLine f chunks = (.error .disconnected, i) ∧ frames f.limit (seen ⟨f, chunks⟩) = []) ∨
      (nextLine f chunks = (.error (.malformed (.tooLong f.limit)), i) ∧
        frames f.limit (seen ⟨f, chunks⟩) = [.refusal f.limit]) ∨
      ∃ frame : Frame, nextLine f chunks = (frame.result.mapError .malformed, i) ∧
        frames f.limit (seen ⟨f, chunks⟩) = frame :: frames f.limit i.seen) := by
  induction chunks generalizing f with
  | nil =>
    obtain ⟨f', hlimit, ⟨hnext, -, hnone⟩ | ⟨hnext, -, hlong⟩ | ⟨frame, hnext, hpending, hline⟩⟩ := next_cases f
    · refine ⟨⟨f', []⟩, hlimit, .inl ⟨by rw [nextLine, hnext], ?_⟩⟩
      simpa [seen] using hnone
    · exact ⟨⟨f', []⟩, hlimit, .inr (.inl ⟨nextLine_of_error hnext _, frames_of_overlong (hlong.append _)⟩)⟩
    · exact ⟨⟨f', []⟩, hlimit, .inr (.inr ⟨frame, nextLine_of_frame hnext hpending hline _⟩)⟩
  | cons chunk chunks ih =>
    obtain ⟨f', hlimit, ⟨hnext, hpending, -⟩ | ⟨hnext, -, hlong⟩ | ⟨frame, hnext, hpending, hline⟩⟩ := next_cases f
    · have hseen : seen ⟨f'.push chunk, chunks⟩ = seen ⟨f, chunk :: chunks⟩ := by simp [seen, hpending]
      have hstep : nextLine f (chunk :: chunks) = nextLine (f'.push chunk) chunks := by rw [nextLine, hnext]
      have hread := ih (f'.push chunk)
      rw [limit_push, hlimit, hseen, ← hstep] at hread
      exact hread
    · exact ⟨⟨f', _⟩, hlimit, .inr (.inl ⟨nextLine_of_error hnext _, frames_of_overlong (hlong.append _)⟩)⟩
    · exact ⟨⟨f', _⟩, hlimit, .inr (.inr ⟨frame, nextLine_of_frame hnext hpending hline _⟩)⟩

theorem next_of_replies (i : Incoming) :
    (i.replies = [] → i.next.1 = .error .disconnected) ∧
      ∀ reply later, i.replies = reply :: later →
        i.next.1 = reply ∧ ∀ m, reply = .ok m → i.next.2.replies = later := by
  have hmap : ∀ (frame : Frame) (i' : Incoming), nextLine i.framer i.chunks = (frame.result.mapError .malformed, i') →
      i.next = (ClientError.ofLine frame.result, i') := by
    intro frame i' hline
    rw [next, hline]
    cases frame.result with
    | error e => rfl
    | ok line =>
      dsimp only [Except.mapError, ClientError.ofLine]
      cases Message.decode line <;> rfl
  unfold replies
  obtain ⟨i', hlimit, ⟨hline, hframes⟩ | ⟨hline, hframes⟩ | ⟨frame, hline, hframes⟩⟩ := nextLine_spec i.framer i.chunks
  all_goals
    change frames i.framer.limit i.seen = _ at hframes
    rw [hframes]
  · refine ⟨fun _ => by rw [next, hline], fun reply later h => ?_⟩
    cases h
  · refine ⟨fun h => absurd h (List.cons_ne_nil _ _), fun reply later h => ?_⟩
    obtain ⟨rfl, rfl⟩ := List.cons.inj h
    rw [hmap (.refusal i.framer.limit) i' hline]
    refine ⟨rfl, fun m hm => ?_⟩
    cases hm
  · refine ⟨fun h => absurd h (List.cons_ne_nil _ _), fun reply later h => ?_⟩
    obtain ⟨rfl, rfl⟩ := List.cons.inj h
    rw [hmap frame i' hline, hlimit]
    exact ⟨rfl, fun _ _ => rfl⟩

end Incoming

/-! ### One offer -/

namespace Attached

/-- The UNTILs at the head of some replies, each with its time and its signals. -/
def untils : List (Except ClientError Message) → List (Time × Signals)
  | .ok (.deliver time signals) :: later => (time, signals) :: untils later
  | _ => []

def ending : List (Except ClientError Message) → ClientError
  | [] => .disconnected
  | .error cause :: _ => cause
  | .ok (.deliver ..) :: later => ending later
  | .ok .finish :: _ => .finished
  | .ok m :: _ => .unexpected .deliver m.command

variable {a : Attached}

theorem await_of_until {time : Time} {signals : Signals} {later : List (Except ClientError Message)}
    (h : a.incoming.replies = .ok (.deliver time signals) :: later) : ∃ a' : Attached,
    a.await = (.ok (), a') ∧ a'.client = { a.client with time, signals, steps := a.client.steps + 1 } ∧
      a'.incoming.replies = later := by
  obtain ⟨hfirst, hlater⟩ := a.incoming.next_of_replies.2 _ _ h
  have hnext : a.incoming.next = (.ok (.deliver time signals), a.incoming.next.2) := Prod.ext hfirst rfl
  exact ⟨⟨_, a.incoming.next.2⟩, by rw [await, hnext]; rfl, rfl, hlater _ rfl⟩

theorem await_of_ending (h : untils a.incoming.replies = []) : ∃ a' : Attached,
    a.await = (.error (ending a.incoming.replies), a') ∧ a'.client = a.client := by
  refine ⟨{ a with incoming := a.incoming.next.2 }, ?_, rfl⟩
  have hnext : ∀ {result}, a.incoming.next.1 = result → a.incoming.next = (result, a.incoming.next.2) :=
    fun hfirst => Prod.ext hfirst rfl
  cases hreplies : a.incoming.replies with
  | nil => rw [await, hnext (a.incoming.next_of_replies.1 hreplies)]; rfl
  | cons reply later =>
    have hfirst := hnext (a.incoming.next_of_replies.2 _ _ hreplies).1
    rw [await, hfirst]
    cases reply with
    | error cause => rfl
    | ok m =>
      cases m with
      | deliver time signals =>
        rw [hreplies] at h
        cases h
      | hello | youAre | nak | ready | finish => rfl

/-! ### The loop -/

/-- From state `k` to the next one the clock goes to the level of the edge, from any other one. -/
def EdgeAt (clock : String) (edge : Edge) (states : List (Time × Signals)) (k : Nat) : Prop :=
  ∃ before after, states[k]? = some before ∧ states[k + 1]? = some after ∧
    before.2.bit clock ≠ edge.target ∧ after.2.bit clock = edge.target

/-- What becomes of waiting. The client has been through `states`: the one it was in, and one for each UNTIL that can be
read before something else comes. -/
inductive Waited (a : Attached) (clock : String) (drive : Signals) (edge : Edge) (states : List (Time × Signals)) :
    Except ClientError Unit × Attached × List Message → Prop where
  /-- The transition comes with UNTIL `k + 1`, and with none before it. What follows is left to be read. -/
  | came (k : Nat) (time : Time) (signals : Signals) (incoming : Incoming) (comes : EdgeAt clock edge states k)
      (first : ∀ j < k, ¬ EdgeAt clock edge states j) (state : states[k + 1]? = some (time, signals))
      (left : incoming.replies = a.incoming.replies.drop (k + 1)) :
      Waited a clock drive edge states (.ok (),
        ⟨{ a.client with time, signals, steps := a.client.steps + (k + 1) }, incoming⟩,
        (states.take (k + 1)).map fun state => .ready state.1 drive)
  /-- It does not come with any of the UNTILs. -/
  | failed (time : Time) (signals : Signals) (incoming : Incoming) (none : ∀ j, ¬ EdgeAt clock edge states j)
      (last : states.getLast? = some (time, signals)) :
      Waited a clock drive edge states (.error (ending a.incoming.replies),
        ⟨{ a.client with time, signals, steps := a.client.steps + (states.length - 1) }, incoming⟩,
        states.map fun state => .ready state.1 drive)

/-- The states that a client can go through before something other than an UNTIL comes. -/
def states (a : Attached) : List (Time × Signals) :=
  (a.client.time, a.client.signals) :: untils a.incoming.replies

variable {a' : Attached} {clock : String} {drive : Signals} {edge : Edge}

theorem waitEdge_of_error {e : ClientError} (h : a.await = (.error e, a')) :
    a.waitEdge clock drive edge = (.error e, a', [a.client.offer drive]) := by
  rw [waitEdge]
  split <;> simp_all

theorem waitEdge_of_ok (h : a.await = (.ok (), a')) : a.waitEdge clock drive edge =
    if edge.occurs (a.client.bit clock) (a'.client.bit clock) then (.ok (), a', [a.client.offer drive])
    else ((a'.waitEdge clock drive edge).1, (a'.waitEdge clock drive edge).2.1,
      a.client.offer drive :: (a'.waitEdge clock drive edge).2.2) := by
  rw [waitEdge]
  split <;> simp_all

theorem edgeAt_zero {before after : Time × Signals} {later : List (Time × Signals)} :
    EdgeAt clock edge (before :: after :: later) 0 ↔
      edge.occurs (before.2.bit clock) (after.2.bit clock) = true := by
  simp [EdgeAt, Edge.occurs]

theorem Waited.cons {time : Time} {signals : Signals}
    (hclient : a'.client = { a.client with time, signals, steps := a.client.steps + 1 })
    (hreplies : a.incoming.replies = .ok (.deliver time signals) :: a'.incoming.replies)
    (hstates : a.states = (a.client.time, a.client.signals) :: a'.states) (hnot : ¬ EdgeAt clock edge a.states 0)
    {result : Except ClientError Unit} {last : Attached} {sent : List Message}
    (h : a'.Waited clock drive edge a'.states (result, last, sent)) :
    a.Waited clock drive edge a.states (result, last, a.client.offer drive :: sent) := by
  rw [hstates] at hnot ⊢
  cases h with
  | came k time' signals' incoming comes first state left =>
    have hsteps : a.client.steps + 1 + (k + 1) = a.client.steps + (k + 1 + 1) := by omega
    rw [hclient]
    dsimp only
    rw [hsteps]
    refine .came (k + 1) time' signals' incoming comes (fun j hj => ?_) state ?_
    · cases j with
      | zero => exact hnot
      | succ j => exact first j (by omega)
    · rw [left, hreplies]
      rfl
  | failed time' signals' incoming none hlast =>
    have hending : ending a.incoming.replies = ending a'.incoming.replies := by rw [hreplies]; rfl
    have hsteps : a.client.steps + 1 + (a'.states.length - 1) =
        a.client.steps + (((a.client.time, a.client.signals) :: a'.states).length - 1) := by
      simp only [states, List.length_cons]
      omega
    rw [hclient, ← hending]
    dsimp only
    rw [hsteps]
    refine .failed time' signals' incoming (fun j => ?_) ?_
    · cases j with
      | zero => exact hnot
      | succ j => exact none j
    · rw [List.getLast?_cons, hlast]
      rfl

/-- **Waiting for an edge.** The wait ends with the first UNTIL that brings the transition, or with what comes instead
of it, and either way the client knows what the last UNTIL said. -/
theorem wait_stops_at_first_edge (a : Attached) (clock : String) (drive : Signals) (edge : Edge) :
    a.Waited clock drive edge a.states (a.waitEdge clock drive edge) := by
  -- On the UNTILs that are left: the loop goes round once for each of them, and what ends them is read only once.
  generalize huntils : untils a.incoming.replies = us
  induction us generalizing a with
  | nil =>
    obtain ⟨⟨client, incoming⟩, hawait, hclient⟩ := await_of_ending huntils
    obtain rfl : client = a.client := hclient
    have hstates : a.states = [(a.client.time, a.client.signals)] := by rw [states, huntils]
    rw [waitEdge_of_error hawait, hstates]
    refine .failed a.client.time a.client.signals incoming ?_ rfl
    rintro j ⟨_, _, -, hafter, -⟩
    cases hafter
  | cons u us ih =>
    obtain ⟨time, signals, later, hreplies, hlater⟩ : ∃ time signals later,
        a.incoming.replies = .ok (.deliver time signals) :: later ∧ untils later = us := by
      generalize a.incoming.replies = replies at huntils
      unfold untils at huntils
      split at huntils
      · exact ⟨_, _, _, rfl, (List.cons.inj huntils).2⟩
      · cases huntils
    obtain ⟨⟨client, incoming⟩, hawait, hclient, rfl⟩ := await_of_until hreplies
    obtain rfl : client = _ := hclient
    have hstates : a.states = (a.client.time, a.client.signals) :: (time, signals) :: untils incoming.replies := by
      rw [states, hreplies]
      rfl
    rw [waitEdge_of_ok hawait]
    split
    · next hoccurs =>
      rw [hstates]
      exact .came 0 time signals incoming (edgeAt_zero.2 hoccurs) (fun j hj => absurd hj j.not_lt_zero) rfl
        (by rw [hreplies]; rfl)
    · next hquiet =>
      have hnot : ¬ EdgeAt clock edge a.states 0 := by
        rw [hstates, edgeAt_zero]
        exact hquiet
      exact Waited.cons rfl hreplies hstates hnot (ih _ hlater)

end Attached

/-! ### The count of UNTILs -/

namespace Incoming

theorem length_pending_next_le (f : Framer) : f.next.2.pending.length ≤ f.pending.length := by
  obtain ⟨f', -, ⟨hnext, hpending, -⟩ | ⟨hnext, hpending, -⟩ | ⟨frame, hnext, hpending, -⟩⟩ := next_cases f
  · rw [hnext, hpending]
  · rw [hnext, hpending]
  · rw [hnext, hpending, List.length_append]
    exact Nat.le_add_left _ _

theorem size_nextLine_le (f : Framer) (chunks : List (List UInt8)) :
    (nextLine f chunks).2.size ≤ (Incoming.mk f chunks).size := by
  induction chunks generalizing f with
  | nil =>
    have hlength := length_pending_next_le f
    rw [nextLine]
    split
    all_goals
      next h =>
      rw [h] at hlength
      exact Nat.add_le_add_right hlength _
  | cons chunk chunks ih =>
    have hlength := length_pending_next_le f
    rw [nextLine]
    split
    · next h =>
      rw [h] at hlength
      exact Nat.add_le_add_right hlength _
    · next h =>
      rw [h] at hlength
      exact Nat.add_le_add_right hlength _
    · next f' h =>
      rw [h] at hlength
      refine (ih (f'.push chunk)).trans ?_
      simp only [size, pending_push, List.flatten_cons, List.length_append]
      dsimp only at hlength
      omega

theorem size_next_le (i : Incoming) : i.next.2.size ≤ i.size := by
  have hline := size_nextLine_le i.framer i.chunks
  have hsame : i.next.2 = (nextLine i.framer i.chunks).2 := by
    unfold next
    split
    · next h => rw [h]
    · next h =>
      rw [h]
      split <;> rfl
  rw [hsame]
  exact hline

end Incoming

theorem Client.steps_take_le {c c' : Client} {m : Message} (h : c.take m = .ok c') : c'.steps ≤ c.steps + 1 := by
  cases m with
  | deliver time signals =>
    cases h
    exact Nat.le_refl _
  | hello | youAre | nak | ready | finish => cases h

theorem Client.steps_welcome {name : String} {answer : Except ClientError Message} {c : Client}
    (h : welcome name answer = .ok c) : c.steps = 0 := by
  cases answer with
  | error e => cases e <;> cases h
  | ok m =>
    cases m with
    | youAre ident =>
      obtain rfl := Except.ok.inj h
      rfl
    | hello | nak | ready | deliver | finish => cases h

namespace Attached

/-- What calls make of a client. -/
inductive Uses (a : Attached) : Attached → Prop where
  | start : Uses a a
  | ready {b : Attached} (h : Uses a b) (drive : Signals) : Uses a (b.ready drive).2.1
  | waitEdge {b : Attached} (h : Uses a b) (clock : String) (drive : Signals) (edge : Edge) :
      Uses a (b.waitEdge clock drive edge).2.1

/-- The UNTILs that have been read, and the bytes that are left to be read. -/
def load (a : Attached) : Nat := a.client.steps + a.incoming.size

theorem load_await_le (a : Attached) : a.await.2.load ≤ a.load := by
  have hsize := a.incoming.size_next_le
  unfold await
  split
  · next h =>
    rw [h] at hsize
    exact Nat.add_le_add_left hsize _
  · next h =>
    split
    · rw [h] at hsize
      exact Nat.add_le_add_left hsize _
    · next htake =>
      have hsteps := Client.steps_take_le htake
      have hless := Incoming.size_next_lt h
      unfold load
      dsimp only
      omega

theorem load_waitEdge_le (a : Attached) (clock : String) (drive : Signals) (edge : Edge) :
    (a.waitEdge clock drive edge).2.1.load ≤ a.load := by
  have hawait := a.load_await_le
  cases h : a.await with
  | mk result a' =>
    rw [h] at hawait
    cases result with
    | error e =>
      rw [waitEdge_of_error h]
      exact hawait
    | ok =>
      rw [waitEdge_of_ok h]
      split
      · exact hawait
      · exact (load_waitEdge_le a' clock drive edge).trans hawait
termination_by a.incoming.size
decreasing_by exact size_await_lt h

theorem Uses.load_le {a b : Attached} (h : a.Uses b) : b.load ≤ a.load := by
  induction h with
  | start => exact Nat.le_refl _
  | ready _ drive ih => exact (load_await_le _).trans ih
  | waitEdge _ clock drive edge ih => exact (load_waitEdge_le _ clock drive edge).trans ih

theorem load_connect_le {name : String} {options : Options} {incoming : Incoming} {a : Attached}
    (h : (connect name options incoming).1 = .ok a) : a.load ≤ incoming.size := by
  have hconnect : (Client.welcome name incoming.next.1).map (fun client => ⟨client, incoming.next.2⟩) = .ok a := h
  obtain ⟨client, hwelcome, rfl⟩ := exists_of_map_eq_ok hconnect
  rw [load, Client.steps_welcome hwelcome, Nat.zero_add]
  exact incoming.size_next_le

/-- A client that is sent fewer bytes than a word can count reads fewer UNTILs. -/
theorem steps_lt {name : String} {options : Options} {incoming : Incoming} {a b : Attached}
    (h : (connect name options incoming).1 = .ok a) (huses : a.Uses b) (hsize : incoming.size < UInt64.size) :
    b.client.steps < UInt64.size := by
  have hsteps : b.client.steps ≤ b.load := Nat.le_add_right _ _
  exact Nat.lt_of_le_of_lt (hsteps.trans (huses.load_le.trans (load_connect_le h))) hsize

end Attached

end Lockstep
