import Mathlib
import Lockstep.Proofs.Message.Framing
/-!
# Frames

What a stream of bytes says is fixed by the stream alone (`Framed`): it is cut at every line feed, and a line that is
longer than the limit ends the sequence, whether or not its line feed has arrived. `Framer.answers_follow_frames` says
that a framer gives these frames, however the bytes are pushed and however often it is asked in between.

Proof. The bytes that were pushed are at any time the frames that were taken, followed by the pending bytes
(`Followed.bytes`). Bytes that are pushed leave the frames before them alone (`frames_flatMap_append`), and a line that
is longer than the limit stays so whatever is pushed (`Overlong.append`). One answer takes one frame from the pending
bytes (`next_cases`).
-/

namespace Lockstep.Framer

/-! ### The frames of a stream -/

/-- A segment before a line feed has a body, which one carriage return may follow. -/
inductive Body : List UInt8 → List UInt8 → Prop where
  | bare {body : List UInt8} (last : body.getLast? ≠ some carriageReturn) : Body body body
  | returned (body : List UInt8) : Body (body ++ [carriageReturn]) body

/-- What is read in a segment before a line feed. -/
inductive Reading (segment : List UInt8) : Except LineError String → Prop where
  | line {line : String} (body : Body segment (Text.bytes line.toList)) : Reading segment (.ok line)
  | notText {body : List UInt8} (h : Body segment body) (none : ∀ line : String, Text.bytes line.toList ≠ body) :
      Reading segment (.error .notText)

/-- What is said of a stretch of the stream, with the bytes that it takes away. -/
structure Frame where
  taken : List UInt8
  result : Except LineError String

/-- The last frame of a stream with a line that is too long, of which no byte is taken. -/
def Frame.refusal (limit : Nat) : Frame := ⟨[], .error (.tooLong limit)⟩

/-- The frames of a stream. -/
inductive Framed (limit : Nat) : List UInt8 → List Frame → Prop where
  | tail {bytes : List UInt8} (unfinished : lineFeed ∉ bytes) (short : bytes.length ≤ limit) : Framed limit bytes []
  | longTail {bytes : List UInt8} (unfinished : lineFeed ∉ bytes) (long : limit < bytes.length) :
      Framed limit bytes [.refusal limit]
  | longSegment {segment rest : List UInt8} (cut : lineFeed ∉ segment) (long : limit < segment.length) :
      Framed limit (segment ++ lineFeed :: rest) [.refusal limit]
  | segment {segment rest : List UInt8} {result : Except LineError String} {frames : List Frame}
      (cut : lineFeed ∉ segment) (short : segment.length ≤ limit) (reading : Reading segment result)
      (framed : Framed limit rest frames) :
      Framed limit (segment ++ lineFeed :: rest) (⟨segment ++ [lineFeed], result⟩ :: frames)

theorem body_iff {segment body : List UInt8} : Body segment body ↔ trimReturn segment = body := by
  constructor
  · intro h
    cases h with
    | bare hlast => rw [trimReturn, if_neg hlast]
    | returned => simp [trimReturn]
  · rintro rfl
    unfold trimReturn
    split
    · next hlast =>
      obtain ⟨body, rfl⟩ := List.getLast?_eq_some_iff.1 hlast
      rw [List.dropLast_concat]
      exact .returned body
    · next hlast => exact .bare hlast

theorem fromUTF8?_eq_some_iff {body : List UInt8} {line : String} :
    String.fromUTF8? body.toByteArray = some line ↔ Text.bytes line.toList = body := by
  have hbytes : (Text.bytes line.toList).toByteArray = line.toByteArray := String.utf8Encode_toList
  constructor
  · intro h
    unfold String.fromUTF8? at h
    split at h
    · cases h
      rw [← List.toList_data_toByteArray (l := Text.bytes _), hbytes]
      exact List.toList_data_toByteArray
    · cases h
  · rintro rfl
    rw [hbytes]
    exact dif_pos line.isValidUTF8

theorem reading_iff {segment : List UInt8} {result : Except LineError String} :
    Reading segment result ↔ lineOf segment = result := by
  constructor
  · intro h
    cases h with
    | line hbody => rw [lineOf, body_iff.1 hbody, fromUTF8?_eq_some_iff.2 rfl]
    | @notText body hbody hnone =>
      have hfound : String.fromUTF8? body.toByteArray = none :=
        Option.eq_none_iff_forall_ne_some.2 fun line h => hnone line (fromUTF8?_eq_some_iff.1 h)
      rw [lineOf, body_iff.1 hbody, hfound]
  · rintro rfl
    unfold lineOf
    split
    · next line hline =>
      refine .line (body_iff.2 ?_)
      rw [fromUTF8?_eq_some_iff.1 hline]
    · next hnone =>
      refine .notText (body_iff.2 rfl) fun line h => ?_
      rw [fromUTF8?_eq_some_iff.2 h] at hnone
      cases hnone

/-! ### The frames computed -/

theorem length_rest {bytes segment rest : List UInt8} (h : Text.cutFirst? lineFeed bytes = some (segment, rest)) :
    rest.length < bytes.length := by
  rw [(Text.cutFirst?_eq_some_iff.1 h).1, List.length_append, List.length_cons]
  omega

/-- The frames of a stream, cut one after the other. -/
def frames (limit : Nat) (bytes : List UInt8) : List Frame :=
  match _ : Text.cutFirst? lineFeed bytes with
  | none => if limit < bytes.length then [.refusal limit] else []
  | some (segment, rest) =>
    if limit < segment.length then [.refusal limit]
    else ⟨segment ++ [lineFeed], lineOf segment⟩ :: frames limit rest
termination_by bytes.length
decreasing_by exact length_rest ‹_›

variable {limit : Nat}

theorem frames_of_not_mem {bytes : List UInt8} (h : lineFeed ∉ bytes) :
    frames limit bytes = if limit < bytes.length then [.refusal limit] else [] := by
  have hcut := Text.cutFirst?_eq_none_iff.2 h
  rw [frames]
  split
  · rfl
  · next hsome =>
    rw [hcut] at hsome
    cases hsome

theorem frames_of_segment {segment : List UInt8} (h : lineFeed ∉ segment) (rest : List UInt8) :
    frames limit (segment ++ lineFeed :: rest) =
      if limit < segment.length then [.refusal limit]
      else ⟨segment ++ [lineFeed], lineOf segment⟩ :: frames limit rest := by
  have hcut : Text.cutFirst? lineFeed (segment ++ lineFeed :: rest) = some (segment, rest) :=
    Text.cutFirst?_eq_some_iff.2 ⟨rfl, h⟩
  rw [frames]
  split
  · next hnone =>
    rw [hcut] at hnone
    cases hnone
  · next hsome =>
    rw [hcut] at hsome
    cases hsome
    rfl

theorem framed_iff {bytes : List UInt8} {fs : List Frame} : Framed limit bytes fs ↔ frames limit bytes = fs := by
  constructor
  · intro h
    induction h with
    | tail hnot hshort => rw [frames_of_not_mem hnot, if_neg (by omega)]
    | longTail hnot hlong => rw [frames_of_not_mem hnot, if_pos hlong]
    | longSegment hnot hlong => rw [frames_of_segment hnot, if_pos hlong]
    | segment hnot hshort hreading _ ih => rw [frames_of_segment hnot, if_neg (by omega), reading_iff.1 hreading, ih]
  · rintro rfl
    induction bytes using frames.induct limit with
    | case1 bytes hcut hlong =>
      have hnot := Text.cutFirst?_eq_none_iff.1 hcut
      rw [frames_of_not_mem hnot, if_pos hlong]
      exact .longTail hnot hlong
    | case2 bytes hcut hshort =>
      have hnot := Text.cutFirst?_eq_none_iff.1 hcut
      rw [frames_of_not_mem hnot, if_neg hshort]
      exact .tail hnot (by omega)
    | case3 bytes segment rest hcut hlong =>
      obtain ⟨rfl, hnot⟩ := Text.cutFirst?_eq_some_iff.1 hcut
      rw [frames_of_segment hnot, if_pos hlong]
      exact .longSegment hnot hlong
    | case4 bytes segment rest hcut hshort ih =>
      obtain ⟨rfl, hnot⟩ := Text.cutFirst?_eq_some_iff.1 hcut
      rw [frames_of_segment hnot, if_neg hshort]
      exact .segment hnot (by omega) (reading_iff.2 rfl) ih

/-! ### One answer -/

/-- A frame of a line that is within the limit. -/
def Frame.IsLine (limit : Nat) (frame : Frame) : Prop :=
  ∃ segment, frame = ⟨segment ++ [lineFeed], lineOf segment⟩ ∧ lineFeed ∉ segment ∧ segment.length ≤ limit

/-- The stream begins with a line that is too long. -/
def Overlong (limit : Nat) (bytes : List UInt8) : Prop :=
  ∃ line rest, bytes = line ++ rest ∧ lineFeed ∉ line ∧ limit < line.length

theorem Overlong.append {bytes : List UInt8} (h : Overlong limit bytes) (more : List UInt8) :
    Overlong limit (bytes ++ more) := by
  obtain ⟨line, rest, rfl, hnot, hlong⟩ := h
  exact ⟨line, rest ++ more, List.append_assoc .., hnot, hlong⟩

theorem next_cases (f : Framer) : ∃ f' : Framer, f'.limit = f.limit ∧
    ((f.next = (.ok none, f') ∧ f'.pending = f.pending ∧ frames f.limit f.pending = []) ∨
      (f.next = (.error (.tooLong f.limit), f') ∧ f'.pending = f.pending ∧ Overlong f.limit f.pending) ∨
      ∃ frame : Frame, f.next = (frame.result.map some, f') ∧ f.pending = frame.taken ++ f'.pending ∧
        frame.IsLine f.limit) := by
  cases hcut : f.cut? with
  | none =>
    have hnot := cut?_eq_none_iff.1 hcut
    refine ⟨f.lookedThrough hnot, rfl, ?_⟩
    rw [next_of_not_mem hnot]
    by_cases hlong : f.limit < f.pending.length
    · rw [if_pos hlong]
      exact .inr (.inl ⟨rfl, rfl, f.pending, [], (List.append_nil _).symm, hnot, hlong⟩)
    · rw [if_neg hlong]
      exact .inl ⟨rfl, rfl, by rw [frames_of_not_mem hnot, if_neg hlong]⟩
  | some found =>
    obtain ⟨segment, rest⟩ := found
    obtain ⟨hpending, hnot⟩ := cut?_eq_some_iff.1 hcut
    rw [next_of_segment hpending hnot]
    by_cases hlong : f.limit < segment.length
    · rw [if_pos hlong]
      exact ⟨f, rfl, .inr (.inl ⟨rfl, rfl, segment, _, hpending, hnot, hlong⟩)⟩
    · rw [if_neg hlong]
      refine ⟨{ limit := f.limit, pending := rest }, rfl, .inr (.inr ?_)⟩
      refine ⟨⟨segment ++ [lineFeed], lineOf segment⟩, rfl, ?_, ?_⟩
      · rw [hpending, List.append_assoc]
        rfl
      · exact ⟨segment, rfl, hnot, by omega⟩

theorem frames_flatMap_append {lines : List Frame} (h : ∀ frame ∈ lines, frame.IsLine limit) (bytes : List UInt8) :
    frames limit (lines.flatMap Frame.taken ++ bytes) = lines ++ frames limit bytes := by
  induction lines with
  | nil => rfl
  | cons frame lines ih =>
    obtain ⟨segment, rfl, hnot, hshort⟩ := h frame (by simp)
    rw [List.flatMap_cons, List.append_assoc, List.append_assoc, List.singleton_append, frames_of_segment hnot,
      if_neg (by omega), ih fun frame hframe => h frame (by simp [hframe])]
    rfl

theorem Frame.IsLine.frames_append {frame : Frame} (h : frame.IsLine limit) (rest : List UInt8) :
    frames limit (frame.taken ++ rest) = frame :: frames limit rest := by
  have hline : ∀ frame' ∈ [frame], frame'.IsLine limit := by simpa using h
  simpa using frames_flatMap_append hline rest

theorem frames_of_overlong {bytes : List UInt8} (h : Overlong limit bytes) : frames limit bytes = [.refusal limit] := by
  obtain ⟨line, rest, rfl, hnot, hlong⟩ := h
  cases hcut : Text.cutFirst? lineFeed rest with
  | none =>
    have hrest := Text.cutFirst?_eq_none_iff.1 hcut
    rw [frames_of_not_mem (by simp [hnot, hrest]), if_pos]
    rw [List.length_append]
    omega
  | some found =>
    obtain ⟨rfl, hfound⟩ := Text.cutFirst?_eq_some_iff.1 hcut
    rw [← List.append_assoc, frames_of_segment (by simp [hnot, hfound]), if_pos]
    rw [List.length_append]
    omega

theorem next_of_overlong {f : Framer} (h : Overlong f.limit f.pending) :
    ∃ f' : Framer, f'.limit = f.limit ∧ f.next = (.error (.tooLong f.limit), f') ∧ f'.pending = f.pending := by
  obtain ⟨f', hlimit, ⟨-, -, hnone⟩ | ⟨hnext, hpending, -⟩ | ⟨frame, -, hpending, hline⟩⟩ := next_cases f
  · rw [frames_of_overlong h] at hnone
    cases hnone
  · exact ⟨f', hlimit, hnext, hpending⟩
  · have hframes := hline.frames_append f'.pending
    rw [← hpending, frames_of_overlong h] at hframes
    obtain ⟨segment, rfl, -⟩ := hline
    simp [Frame.refusal] at hframes

/-! ### A framer in use -/

/-- What is done with a framer. -/
inductive Use where
  | push (bytes : List UInt8)
  | next

/-- The answers of a framer that is used, and what becomes of it. -/
def run (f : Framer) : List Use → List (Except LineError (Option String)) × Framer
  | [] => ([], f)
  | .push bytes :: uses => run (f.push bytes) uses
  | .next :: uses =>
    let later := run f.next.2 uses
    (f.next.1 :: later.1, later.2)

def pushed : List Use → List UInt8
  | [] => []
  | .push bytes :: uses => bytes ++ pushed uses
  | .next :: uses => pushed uses

/-- An answer, unless there is no line yet. -/
def result? : Except LineError (Option String) → Option (Except LineError String)
  | .ok none => none
  | .ok (some line) => some (.ok line)
  | .error e => some (.error e)

/-- Results up to the first that refuses a line for its length. -/
def untilRefusal : List (Except LineError String) → List (Except LineError String)
  | [] => []
  | .error (.tooLong limit) :: _ => [.error (.tooLong limit)]
  | result :: results => result :: untilRefusal results

@[simp] theorem result?_map_some (result : Except LineError String) : result? (result.map some) = some result := by
  cases result <;> rfl

/-- A framer has been given `bytes` and has said `results`: it has taken the frames `read`, and has refused what follows
them `refusals` times. -/
structure Followed (limit : Nat) (bytes : List UInt8) (results : List (Except LineError String)) (f : Framer)
    (read : List Frame) (refusals : Nat) : Prop where
  limit_eq : f.limit = limit
  bytes_eq : read.flatMap Frame.taken ++ f.pending = bytes
  isLine : ∀ frame ∈ read, frame.IsLine limit
  results_eq : results = read.map Frame.result ++ List.replicate refusals (.error (.tooLong limit))
  overlong : refusals ≠ 0 → Overlong limit f.pending

variable {bytes : List UInt8} {results : List (Except LineError String)} {f : Framer} {read : List Frame} {refusals : Nat}

theorem Followed.push (h : Followed limit bytes results f read refusals) (more : List UInt8) :
    Followed limit (bytes ++ more) results (f.push more) read refusals where
  limit_eq := h.limit_eq
  bytes_eq := by rw [pending_push, ← List.append_assoc, h.bytes_eq]
  isLine := h.isLine
  results_eq := h.results_eq
  overlong hne := (h.overlong hne).append more

theorem Followed.next (h : Followed limit bytes results f read refusals) :
    ∃ read' refusals',
      Followed limit bytes (results ++ (result? f.next.1).toList) f.next.2 read' refusals' := by
  obtain ⟨rfl, hbytes, hline, hresults, hoverlong⟩ := h
  by_cases hrefusals : refusals = 0
  · subst hrefusals
    rw [List.replicate_zero, List.append_nil] at hresults
    obtain ⟨f', hlimit, hcases⟩ := next_cases f
    obtain ⟨hnext, hpending, -⟩ | ⟨hnext, hpending, hlong⟩ | ⟨frame, hnext, hpending, hframe⟩ := hcases
    all_goals rw [hnext]
    · refine ⟨read, 0, hlimit, by rw [hpending, hbytes], hline, ?_, by simp⟩
      simp [result?, hresults]
    · refine ⟨read, 1, hlimit, by rw [hpending, hbytes], hline, ?_, fun _ => by rwa [hpending]⟩
      simp [result?, hresults]
    · refine ⟨read ++ [frame], 0, hlimit, ?_, ?_, ?_, by simp⟩
      · rw [← hbytes, hpending]
        simp
      · simpa [or_imp, forall_and] using ⟨hline, hframe⟩
      · simp [hresults]
  · obtain ⟨f', hlimit, hnext, hpending⟩ := next_of_overlong (hoverlong hrefusals)
    rw [hnext]
    refine ⟨read, refusals + 1, hlimit, by rw [hpending, hbytes], hline, ?_, fun _ => ?_⟩
    · rw [hresults, List.append_assoc, List.replicate_succ']
      rfl
    · rw [hpending]
      exact hoverlong hrefusals

theorem Followed.run (h : Followed limit bytes results f read refusals) (uses : List Use) :
    ∃ read' refusals', Followed limit (bytes ++ pushed uses) (results ++ (f.run uses).1.filterMap result?)
      (f.run uses).2 read' refusals' := by
  induction uses generalizing bytes results f read refusals with
  | nil => exact ⟨read, refusals, by simpa [pushed, Framer.run] using h⟩
  | cons use uses ih =>
    cases use with
    | push more =>
      obtain ⟨read', refusals', hrun⟩ := ih (h.push more)
      exact ⟨read', refusals', by simpa [pushed, Framer.run] using hrun⟩
    | next =>
      obtain ⟨read₁, refusals₁, hnext⟩ := h.next
      obtain ⟨read', refusals', hrun⟩ := ih hnext
      refine ⟨read', refusals', ?_⟩
      have hresults : (f.run (.next :: uses)).1.filterMap result? =
          (result? f.next.1).toList ++ (f.next.2.run uses).1.filterMap result? := by
        rw [Framer.run, List.filterMap_cons]
        cases result? f.next.1 <;> rfl
      rw [hresults, ← List.append_assoc]
      exact hrun

theorem Frame.IsLine.result_ne {frame : Frame} (h : frame.IsLine limit) (l : Nat) :
    frame.result ≠ .error (.tooLong l) := by
  obtain ⟨segment, rfl, -⟩ := h
  simp only [lineOf]
  split <;> simp

theorem untilRefusal_append {results : List (Except LineError String)}
    (h : ∀ result ∈ results, ∀ l, result ≠ .error (.tooLong l)) (more : List (Except LineError String)) :
    untilRefusal (results ++ more) = results ++ untilRefusal more := by
  induction results with
  | nil => rfl
  | cons result results ih =>
    rw [List.cons_append, untilRefusal, ih fun result' hresult => h result' (by simp [hresult])]
    · rfl
    · intro l hl
      exact h result (by simp) l hl

theorem Followed.frames_eq (h : Followed limit bytes results f read refusals) :
    frames limit bytes = read ++ frames limit f.pending := by
  rw [← h.bytes_eq, frames_flatMap_append h.isLine]

theorem Followed.given (h : Followed limit bytes results f read refusals) :
    ∃ given, given <+: frames limit bytes ∧ untilRefusal results = given.map Frame.result ∧
      given.flatMap Frame.taken ++ f.pending = bytes := by
  have hread : ∀ result ∈ read.map Frame.result, ∀ l, result ≠ .error (.tooLong l) := by
    intro result hmem l
    obtain ⟨frame, hframe, rfl⟩ := List.mem_map.1 hmem
    exact (h.isLine frame hframe).result_ne l
  rw [h.results_eq, untilRefusal_append hread, h.frames_eq]
  cases refusals with
  | zero => exact ⟨read, List.prefix_append .., by simp [untilRefusal], h.bytes_eq⟩
  | succ n =>
    rw [frames_of_overlong (h.overlong n.succ_ne_zero)]
    refine ⟨read ++ [.refusal limit], List.prefix_rfl, ?_, ?_⟩
    · simp [List.replicate_succ, untilRefusal, Frame.refusal]
    · simpa [Frame.refusal] using h.bytes_eq

theorem Followed.waits (h : Followed limit bytes results f read refusals) (hnext : f.next.1 = .ok none) :
    results = (frames limit bytes).map Frame.result := by
  have hnone : refusals = 0 := by
    refine Decidable.byContradiction fun hne => ?_
    obtain ⟨f', -, hrefused, -⟩ := next_of_overlong (f := f) (by rw [h.limit_eq]; exact h.overlong hne)
    rw [hrefused] at hnext
    cases hnext
  obtain ⟨f', hlimit, ⟨-, -, hframes⟩ | ⟨hnext', -⟩ | ⟨frame, hnext', -⟩⟩ := next_cases f
  · rw [h.limit_eq] at hframes
    rw [h.results_eq, hnone, h.frames_eq, hframes, List.replicate_zero, List.append_nil, List.append_nil]
  · rw [hnext'] at hnext
    cases hnext
  · have hsame : frame.result.map some = .ok none := by rw [← hnext, hnext']
    have hresult := result?_map_some frame.result
    rw [hsame] at hresult
    cases hresult

theorem Followed.refuses (h : Followed limit bytes results f read refusals) {l : Nat}
    (hmem : .error (.tooLong l) ∈ results) : f.next.1 = .error (.tooLong limit) := by
  rw [h.results_eq] at hmem
  rcases List.mem_append.1 hmem with hmem | hmem
  · obtain ⟨frame, hframe, hl⟩ := List.mem_map.1 hmem
    exact absurd hl ((h.isLine frame hframe).result_ne l)
  · obtain rfl := h.limit_eq
    obtain ⟨f', -, hnext, -⟩ := next_of_overlong (h.overlong (List.mem_replicate.1 hmem).1)
    rw [hnext]

/-- **The answers of a framer.** Whatever is pushed in whatever chunks, and whenever it is asked: its results up to the
first refusal are the first frames of the bytes that have been pushed, and the pending bytes are those that these frames
do not take; it waits for more bytes only when all frames have been given; and once it has refused a line for its length,
it refuses for good. -/
theorem answers_follow_frames {uses : List Use} {answers : List (Except LineError (Option String))}
    (h : run (.start limit) uses = (answers, f)) :
    ∃ fs, (∀ other, Framed limit (pushed uses) other ↔ other = fs) ∧
      (∃ given, given <+: fs ∧ untilRefusal (answers.filterMap result?) = given.map Frame.result ∧
        given.flatMap Frame.taken ++ f.pending = pushed uses) ∧
      (f.next.1 = .ok none → answers.filterMap result? = fs.map Frame.result) ∧
      ∀ l, .error (.tooLong l) ∈ answers → f.next.1 = .error (.tooLong limit) := by
  have hstart : Followed limit [] [] (.start limit) [] 0 := ⟨rfl, rfl, by simp, rfl, by simp⟩
  obtain ⟨read, refusals, hrun⟩ := hstart.run uses
  rw [h, List.nil_append, List.nil_append] at hrun
  refine ⟨frames limit (pushed uses), fun other => framed_iff.trans eq_comm, hrun.given, hrun.waits, fun l hmem => ?_⟩
  exact hrun.refuses (List.mem_filterMap.2 ⟨_, hmem, rfl⟩)

/-- A line with its carriage return, a byte that is no text, and a line that is too long, of which the line feed comes
later. -/
def arrivals : List Use :=
  [.push [78, 65, 75], .next, .push [13, 10, 255], .next, .push [10, 48, 49, 50], .next, .next, .push [], .next,
    .push [51, 52], .next, .push [10], .next]

/-- Before the long line the framer waits, and has given all there was; the long line it refuses for good. -/
theorem arrivals_refused :
    (∃ fs, Framed 4 (pushed (arrivals.take 9)) fs ∧ fs.map Frame.result = [.ok "NAK", .error .notText]) ∧
    ∃ f, run (.start 4) arrivals = ([.ok none, .ok (some "NAK"), .error .notText, .ok none, .ok none,
        .error (.tooLong 4), .error (.tooLong 4)], f) ∧
      f.next.1 = .error (.tooLong 4) := by
  have hearly : run (.start 4) (arrivals.take 9) =
      ([.ok none, .ok (some "NAK"), .error .notText, .ok none, .ok none],
        (run (.start 4) (arrivals.take 9)).2) := by cbv
  have hlate : run (.start 4) arrivals = ([.ok none, .ok (some "NAK"), .error .notText, .ok none, .ok none,
      .error (.tooLong 4), .error (.tooLong 4)], (run (.start 4) arrivals).2) := by cbv
  constructor
  · obtain ⟨fs, hframed, -, hwaits, -⟩ := answers_follow_frames hearly
    exact ⟨fs, (hframed fs).2 rfl, (hwaits (by cbv)).symm⟩
  · obtain ⟨fs, -, -, -, hrefuses⟩ := answers_follow_frames hlate
    exact ⟨_, hlate, hrefuses 4 (by simp)⟩

end Lockstep.Framer
