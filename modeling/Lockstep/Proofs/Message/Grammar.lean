import Mathlib
import Lockstep.Proofs.Message.RoundTrip
/-!
# The grammar of lines

Which lines of text are messages, and which message each of them is, said in terms of words (`Message.Sentence`,
`Message.Denotes`) and not of how they are read. Reading a line finds the message that its words denote and accepts
nothing else (`Message.decode_iff_grammar`).

A message that has been read can be written again, and reading it gives the message back (`Message.round_trip`): its
texts are parts of words, and each of its signals has a wire.

Proof. Options and signals are read word by word from the left, so what the words so far denote is the invariant: of
each key the last value, or of each name the only one. A map is determined by its look-ups, so the words denote one
message.
-/

namespace Lockstep

open Text

/-! ### Assignments -/

/-- A word assigns a value to a name, which stands before its first `=`. -/
structure Assigns (w : List Char) (name : String) (value : List Char) : Prop where
  word : w = assignment name.toList value
  named : name.toList ≠ []
  first : '=' ∉ name.toList

theorem readAssignment_eq_ok_iff {w value : List Char} {name : String} :
    readAssignment w = .ok (name, value) ↔ Assigns w name value := by
  unfold readAssignment
  constructor
  · intro h
    split at h
    · cases h
    · cases h
    · next left right hne hcut =>
      cases h
      obtain ⟨rfl, hfirst⟩ := cutFirst?_eq_some_iff.1 hcut
      refine ⟨by rw [String.toList_ofList, assignment], ?_, by rwa [String.toList_ofList]⟩
      rw [String.toList_ofList]
      exact fun hnil => hne (by rw [hnil])
  · rintro ⟨rfl, hnamed, hfirst⟩
    have hcut : cutFirst? '=' (assignment name.toList value) = some (name.toList, value) :=
      cutFirst?_eq_some_iff.2 ⟨rfl, hfirst⟩
    rw [hcut]
    split
    · next h => cases h
    · next h =>
      obtain ⟨hnil, -⟩ := Prod.mk.inj (Option.some.inj h)
      exact absurd hnil hnamed
    · next h =>
      obtain ⟨rfl, rfl⟩ := Prod.mk.inj (Option.some.inj h)
      rw [String.ofList_toList]

theorem Assigns.unique {w value value' : List Char} {name name' : String} (h : Assigns w name value)
    (h' : Assigns w name' value') : name' = name ∧ value' = value := by
  have hread := readAssignment_eq_ok_iff.2 h
  rw [readAssignment_eq_ok_iff.2 h'] at hread
  exact Prod.mk.inj (Except.ok.inj hread)

theorem exists_assigns_iff {w : List Char} :
    (∃ name value, Assigns w name value) ↔ '=' ∈ w ∧ w.head? ≠ some '=' := by
  constructor
  · rintro ⟨name, value, rfl, hnamed, hfirst⟩
    refine ⟨by simp [assignment], ?_⟩
    cases hname : name.toList with
    | nil => exact absurd hname hnamed
    | cons c cs =>
      rw [hname] at hfirst
      rintro heq
      cases heq
      exact hfirst (by simp)
  · rintro ⟨hmem, hhead⟩
    obtain ⟨left, right, rfl, hfirst⟩ := List.eq_append_cons_of_mem hmem
    refine ⟨String.ofList left, right, by rw [String.toList_ofList, assignment], ?_, by rwa [String.toList_ofList]⟩
    rw [String.toList_ofList]
    rintro rfl
    exact hhead rfl

theorem Assigns.isName {w value : List Char} {name : String} (h : Assigns w name value) (hw : IsWord w) :
    IsName name.toList ∧ ∀ c ∈ value, isBlank c = false := by
  obtain ⟨rfl, hnamed, hfirst⟩ := h
  exact ⟨⟨⟨hnamed, fun c hc => hw.2 c (by simp [assignment, hc])⟩, hfirst⟩,
    fun c hc => hw.2 c (by simp [assignment, hc])⟩

/-! ### Values -/

def IsBits (cs : List Char) : Prop := cs ≠ [] ∧ ∀ c ∈ cs, c = '0' ∨ c = '1' ∨ c = 'x' ∨ c = 'z'

namespace Bundle

theorem mapM_level_eq_ok_iff {cs : List Char} {ls : List Level} : cs.mapM level = .ok ls ↔ ls.map Level.char = cs := by
  constructor
  · intro h
    induction cs generalizing ls with
    | nil =>
      cases h
      rfl
    | cons c cs ih =>
      rw [List.mapM_cons] at h
      cases hc : Level.ofChar? c with
      | none =>
        simp only [level, hc] at h
        cases h
      | some l =>
        cases hrest : cs.mapM level with
        | error e =>
          simp only [level, hc, hrest] at h
          cases h
        | ok rest =>
          simp only [level, hc, hrest] at h
          cases h
          rw [List.map_cons, ih hrest, Level.ofChar?_eq_some_iff.1 hc]
  · rintro rfl
    exact mapM_level ls

theorem parse_eq_ok_iff {cs : List Char} {v : Bundle} : parse cs = .ok v ↔ cs ≠ [] ∧ v.chars = cs := by
  unfold parse
  cases cs with
  | nil => simp
  | cons c cs =>
    simp only [List.isEmpty_cons, Bool.false_eq_true, if_false, ne_eq, reduceCtorEq, not_false_eq_true, true_and]
    constructor
    · intro h
      obtain ⟨ls, hls, rfl⟩ := exists_of_map_eq_ok h
      rw [chars, List.reverse_reverse]
      exact mapM_level_eq_ok_iff.1 hls
    · intro h
      rw [mapM_level_eq_ok_iff.2 h]
      show Except.ok (⟨v.bits.reverse.reverse⟩ : Bundle) = .ok v
      rw [List.reverse_reverse]

theorem chars_inj {v w : Bundle} : v.chars = w.chars ↔ v = w := by
  refine ⟨fun h => ?_, fun h => by rw [h]⟩
  have hread : (Except.ok v.bits.reverse : Except Error _) = .ok w.bits.reverse := by
    rw [← mapM_level v.bits.reverse, ← mapM_level w.bits.reverse]
    exact congrArg (·.mapM level) h
  have hbits := List.reverse_inj.1 (Except.ok.inj hread)
  cases v
  cases w
  exact congrArg Bundle.mk hbits

end Bundle

theorem Level.exists_char_eq_iff {c : Char} : (∃ l : Level, l.char = c) ↔ c = '0' ∨ c = '1' ∨ c = 'x' ∨ c = 'z' := by
  constructor
  · rintro ⟨l, rfl⟩
    cases l <;> simp [Level.char]
  · rintro (rfl | rfl | rfl | rfl)
    exacts [⟨.zero, rfl⟩, ⟨.one, rfl⟩, ⟨.unknown, rfl⟩, ⟨.released, rfl⟩]

theorem isBits_iff {cs : List Char} : IsBits cs ↔ cs ≠ [] ∧ ∃ v : Bundle, v.chars = cs := by
  refine and_congr_right fun hne => ?_
  clear hne
  simp only [← Level.exists_char_eq_iff]
  constructor
  · intro h
    have hlevels : ∃ ls : List Level, ls.map Level.char = cs := by
      induction cs with
      | nil => exact ⟨[], rfl⟩
      | cons c cs ih =>
        obtain ⟨l, rfl⟩ := h c (by simp)
        obtain ⟨ls, rfl⟩ := ih fun c' hc' => h c' (by simp [hc'])
        exact ⟨l :: ls, rfl⟩
    obtain ⟨ls, rfl⟩ := hlevels
    exact ⟨⟨ls.reverse⟩, by rw [Bundle.chars, List.reverse_reverse]⟩
  · rintro ⟨v, rfl⟩ c hc
    obtain ⟨l, -, rfl⟩ := List.mem_map.1 hc
    exact ⟨l, rfl⟩

/-- A word denotes a time: digits of the mantissa, an `e`, and the exponent. -/
def Time.DenotedBy (t : Time) (w : List Char) : Prop :=
  ∃ mantissa exponent, w = mantissa ++ 'e' :: exponent ∧ Decimal mantissa t.mantissa.toNat ∧
    Signed exponent t.exponent.toInt

theorem Time.parse_eq_ok_iff {w : List Char} {t : Time} : Time.parse w = .ok t ↔ t.DenotedBy w := by
  constructor
  · intro h
    unfold parse at h
    dsimp only at h
    split at h
    · cases h
    · next mantissa exponent hcut =>
      obtain ⟨rfl, -⟩ := cutFirst?_eq_some_iff.1 hcut
      split at h
      · next m e hm he =>
        cases h
        obtain ⟨hm, hlt⟩ := Option.filter_eq_some_iff.1 hm
        refine ⟨mantissa, exponent, rfl, ?_, signed32?_eq_some_iff.1 he⟩
        show Decimal mantissa (m.toUInt64).toNat
        rw [UInt64.toNat_ofNat_of_lt' (of_decide_eq_true hlt)]
        exact digits?_eq_some_iff.1 hm
      · cases h
  · rintro ⟨mantissa, exponent, rfl, hm, he⟩
    have hcut : cutFirst? 'e' (mantissa ++ 'e' :: exponent) = some (mantissa, exponent) :=
      cutFirst?_eq_some_iff.2 ⟨rfl, fun hmem => absurd (hm.isDigit_of_mem hmem) (by decide)⟩
    have hread : (digits? mantissa).filter (· < UInt64.size) = some t.mantissa.toNat :=
      Option.filter_eq_some_iff.2 ⟨digits?_eq_some_iff.2 hm, decide_eq_true t.mantissa.toNat_lt_size⟩
    simp only [parse, hcut, hread, signed32?_eq_some_iff.2 he]
    simp

/-! ### Options -/

def AreAssignments (ws : List (List Char)) : Prop := ∀ w ∈ ws, '=' ∈ w ∧ w.head? ≠ some '='

/-- The last word that assigns something to a name assigns this value. -/
def LastAssigned (ws : List (List Char)) (name : String) (value : List Char) : Prop :=
  ∃ before w after, ws = before ++ w :: after ∧ Assigns w name value ∧
    ∀ w' ∈ after, ∀ value', ¬Assigns w' name value'

theorem lastAssigned_snoc {ws : List (List Char)} {w : List Char} {name name' : String} {value value' : List Char}
    (h : Assigns w name value) :
    LastAssigned (ws ++ [w]) name' value' ↔ if name' = name then value' = value else LastAssigned ws name' value' := by
  have hassigns : ∀ n v, Assigns w n v ↔ n = name ∧ v = value := by
    intro n v
    refine ⟨h.unique, ?_⟩
    rintro ⟨rfl, rfl⟩
    exact h
  rw [LastAssigned, exists_since_concat_iff, hassigns]
  simp only [hassigns]
  split
  · next hname => simp [hname]
  · next hname => simp [hname, LastAssigned]

namespace Options

theorem read_eq_ok_iff {options options' : Options} {w : List Char} :
    options.read w = .ok options' ↔
      ∃ key value, Assigns w key value ∧ options' = options.insert key (String.ofList value) := by
  constructor
  · intro h
    obtain ⟨⟨key, value⟩, hread, h⟩ := exists_of_bind_eq_ok h
    cases h
    exact ⟨key, value, readAssignment_eq_ok_iff.1 hread, rfl⟩
  · rintro ⟨key, value, h, rfl⟩
    rw [read, readAssignment_eq_ok_iff.2 h]
    rfl

theorem get?_of_foldlM_read {ws : List (List Char)} {options : Options}
    (h : ws.foldlM Options.read .empty = .ok options) (key value : String) :
    options.get? key = some value ↔ LastAssigned ws key value.toList := by
  induction ws using List.reverseRecOn generalizing options with
  | nil =>
    cases h
    simp [LastAssigned]
  | append_singleton ws w ih =>
    obtain ⟨before, hbefore, hread⟩ := foldlM_concat_eq_ok_iff.1 h
    obtain ⟨name, v, hassigns, rfl⟩ := read_eq_ok_iff.1 hread
    rw [lastAssigned_snoc hassigns, SortedMap.get?_insert]
    split
    · rw [Option.some.injEq, ← String.toList_inj, String.toList_ofList, eq_comm]
    · exact ih hbefore

theorem exists_foldlM_read_iff {ws : List (List Char)} :
    (∃ options, ws.foldlM Options.read .empty = .ok options) ↔ AreAssignments ws := by
  induction ws using List.reverseRecOn with
  | nil => exact ⟨fun _ w hw => absurd hw List.not_mem_nil, fun _ => ⟨.empty, rfl⟩⟩
  | append_singleton ws w ih =>
    constructor
    · rintro ⟨options, h⟩ w' hw'
      obtain ⟨before, hbefore, hread⟩ := foldlM_concat_eq_ok_iff.1 h
      rcases List.mem_append.1 hw' with hw' | hw'
      · exact ih.1 ⟨before, hbefore⟩ w' hw'
      · obtain rfl := List.mem_singleton.1 hw'
        obtain ⟨key, value, hassigns, -⟩ := read_eq_ok_iff.1 hread
        exact exists_assigns_iff.1 ⟨key, value, hassigns⟩
    · intro h
      obtain ⟨before, hbefore⟩ := ih.2 fun w' hw' => h w' (by simp [hw'])
      obtain ⟨key, value, hassigns⟩ := exists_assigns_iff.2 (h w (by simp))
      exact ⟨_, foldlM_concat_eq_ok_iff.2 ⟨before, hbefore, read_eq_ok_iff.2 ⟨key, value, hassigns, rfl⟩⟩⟩

theorem foldlM_read_eq_ok_iff {ws : List (List Char)} {options : Options} :
    ws.foldlM Options.read .empty = .ok options ↔
      AreAssignments ws ∧ ∀ key value, options.get? key = some value ↔ LastAssigned ws key value.toList := by
  constructor
  · intro h
    exact ⟨exists_foldlM_read_iff.1 ⟨options, h⟩, get?_of_foldlM_read h⟩
  · rintro ⟨hassign, hlast⟩
    obtain ⟨options', h⟩ := exists_foldlM_read_iff.2 hassign
    have heq : options' = options := SortedMap.ext_get? fun key => Option.ext fun value => by
      rw [get?_of_foldlM_read h, hlast]
    rw [h, heq]

end Options

/-! ### Signals -/

/-- Signals can be read from such words: each gives the levels of some wires to a name, and no name comes twice. -/
structure AreSignals (ws : List (List Char)) : Prop where
  value : ∀ w ∈ ws, ∃ name bits, Assigns w name bits ∧ IsBits bits
  distinct : ws.Pairwise fun w w' => ∀ name bits bits', Assigns w name bits → ¬Assigns w' name bits'

namespace Signals

theorem read_eq_ok_iff {signals signals' : Signals} {w : List Char} :
    signals.read w = .ok signals' ↔ ∃ name v, Assigns w name v.chars ∧ v.chars ≠ [] ∧ signals.get? name = none ∧
      signals' = signals.insert name v := by
  constructor
  · intro h
    obtain ⟨⟨name, bits⟩, hread, h⟩ := exists_of_bind_eq_ok h
    dsimp only at h
    split at h
    · cases h
    · next v hparse =>
      obtain ⟨hne, rfl⟩ := Bundle.parse_eq_ok_iff.1 hparse
      split at h
      · cases h
      · next hnew =>
        cases h
        exact ⟨name, v, readAssignment_eq_ok_iff.1 hread, hne, by simpa [SortedMap.contains] using hnew, rfl⟩
  · rintro ⟨name, v, hassigns, hne, hnew, rfl⟩
    have hcontains : signals.contains name = false := by rw [SortedMap.contains, hnew]; rfl
    rw [read, readAssignment_eq_ok_iff.2 hassigns]
    simp only [bind, Except.bind, Bundle.parse_eq_ok_iff.2 ⟨hne, rfl⟩, hcontains]
    rfl

theorem get?_of_foldlM_read {ws : List (List Char)} {signals : Signals}
    (h : ws.foldlM Signals.read .empty = .ok signals) (name : String) (v : Bundle) :
    signals.get? name = some v ↔ ∃ w ∈ ws, Assigns w name v.chars := by
  induction ws using List.reverseRecOn generalizing signals with
  | nil =>
    cases h
    simp
  | append_singleton ws w ih =>
    obtain ⟨before, hbefore, hread⟩ := foldlM_concat_eq_ok_iff.1 h
    obtain ⟨new, u, hassigns, -, hnew, rfl⟩ := read_eq_ok_iff.1 hread
    rw [SortedMap.get?_insert]
    constructor
    · intro hv
      split at hv
      · next hname =>
        cases hv
        subst hname
        exact ⟨w, by simp, hassigns⟩
      · obtain ⟨w', hw', hearlier⟩ := (ih hbefore).1 hv
        exact ⟨w', by simp [hw'], hearlier⟩
    · rintro ⟨w', hw', hvalue⟩
      rcases List.mem_append.1 hw' with hw' | hw'
      · have hv := (ih hbefore).2 ⟨w', hw', hvalue⟩
        have hne : name ≠ new := by
          rintro rfl
          rw [hnew] at hv
          cases hv
        rw [if_neg hne, hv]
      · obtain rfl := List.mem_singleton.1 hw'
        obtain ⟨rfl, hchars⟩ := hassigns.unique hvalue
        rw [if_pos rfl, Bundle.chars_inj.1 hchars]

theorem exists_foldlM_read_iff {ws : List (List Char)} :
    (∃ signals, ws.foldlM Signals.read .empty = .ok signals) ↔ AreSignals ws := by
  induction ws using List.reverseRecOn with
  | nil => exact ⟨fun _ => ⟨fun w hw => absurd hw List.not_mem_nil, .nil⟩, fun _ => ⟨.empty, rfl⟩⟩
  | append_singleton ws w ih =>
    constructor
    · rintro ⟨signals, h⟩
      obtain ⟨before, hbefore, hread⟩ := foldlM_concat_eq_ok_iff.1 h
      obtain ⟨new, u, hassigns, hne, hnew, -⟩ := read_eq_ok_iff.1 hread
      have hearlier := ih.1 ⟨before, hbefore⟩
      refine ⟨fun w' hw' => ?_, List.pairwise_append.2 ⟨hearlier.distinct, List.pairwise_singleton _ _, ?_⟩⟩
      · rcases List.mem_append.1 hw' with hw' | hw'
        · exact hearlier.value w' hw'
        · obtain rfl := List.mem_singleton.1 hw'
          exact ⟨new, u.chars, hassigns, isBits_iff.2 ⟨hne, u, rfl⟩⟩
      · intro w' hw' w'' hw'' name bits bits' hbits hbits'
        obtain rfl := List.mem_singleton.1 hw''
        obtain ⟨rfl, rfl⟩ := hassigns.unique hbits'
        -- the earlier word has given the name a value
        obtain ⟨name', bits'', hassigns', hvalue⟩ := hearlier.value w' hw'
        obtain ⟨rfl, rfl⟩ := hassigns'.unique hbits
        obtain ⟨-, v, rfl⟩ := isBits_iff.1 hvalue
        rw [(get?_of_foldlM_read hbefore name v).2 ⟨w', hw', hbits⟩] at hnew
        cases hnew
    · rintro ⟨hvalue, hdistinct⟩
      obtain ⟨hdistinct, -, hnew⟩ := List.pairwise_append.1 hdistinct
      obtain ⟨before, hbefore⟩ := ih.2 ⟨fun w' hw' => hvalue w' (by simp [hw']), hdistinct⟩
      obtain ⟨name, bits, hassigns, hbits⟩ := hvalue w (by simp)
      obtain ⟨hne, v, rfl⟩ := isBits_iff.1 hbits
      have hfree : before.get? name = none := by
        cases hget : before.get? name with
        | none => rfl
        | some u =>
          obtain ⟨w', hw', hearlier⟩ := (get?_of_foldlM_read hbefore name u).1 hget
          exact absurd hassigns (hnew w' hw' w (by simp) name u.chars v.chars hearlier)
      exact ⟨_, foldlM_concat_eq_ok_iff.2 ⟨before, hbefore, read_eq_ok_iff.2 ⟨name, v, hassigns, hne, hfree, rfl⟩⟩⟩

theorem foldlM_read_eq_ok_iff {ws : List (List Char)} {signals : Signals} :
    ws.foldlM Signals.read .empty = .ok signals ↔
      AreSignals ws ∧ ∀ name v, signals.get? name = some v ↔ ∃ w ∈ ws, Assigns w name v.chars := by
  constructor
  · intro h
    exact ⟨exists_foldlM_read_iff.1 ⟨signals, h⟩, get?_of_foldlM_read h⟩
  · rintro ⟨hsignals, hvalue⟩
    obtain ⟨signals', h⟩ := exists_foldlM_read_iff.2 hsignals
    have heq : signals' = signals := SortedMap.ext_get? fun name => Option.ext fun v => by
      rw [get?_of_foldlM_read h, hvalue]
    rw [h, heq]

end Signals

/-! ### Messages -/

theorem Command.ofWord?_eq_some_iff {w : List Char} {c : Command} : ofWord? w = some c ↔ w = c.word.toList := by
  constructor
  · intro h
    have hfound := List.find?_some h
    exact (of_decide_eq_true hfound).symm
  · rintro rfl
    cases c <;> rfl

namespace Message

/-- The words of a line that can be read. -/
inductive Sentence : List (List Char) → Prop where
  | hello {name : List Char} {ws : List (List Char)} (assignments : AreAssignments ws) :
      Sentence ("HELLO".toList :: name :: ws)
  | youAre {w : List Char} {ident : Ident} (number : Unsigned w ident.toNat) : Sentence ["YOU-ARE".toList, w]
  | nak : Sentence ["NAK".toList]
  | ready {w : List Char} {ws : List (List Char)} {time : Time} (denotes : time.DenotedBy w) (signals : AreSignals ws) :
      Sentence ("READY".toList :: w :: ws)
  | deliver {w : List Char} {ws : List (List Char)} {time : Time} (denotes : time.DenotedBy w)
      (signals : AreSignals ws) : Sentence ("UNTIL".toList :: w :: ws)
  | finish : Sentence ["FINISH".toList]

/-- The message that some words denote. -/
inductive Denotes : List (List Char) → Message → Prop where
  | hello {name : List Char} {ws : List (List Char)} {options : Options} (assignments : AreAssignments ws)
      (last : ∀ key value, options.get? key = some value ↔ LastAssigned ws key value.toList) :
      Denotes ("HELLO".toList :: name :: ws) (.hello (String.ofList name) options)
  | youAre {w : List Char} {ident : Ident} (number : Unsigned w ident.toNat) :
      Denotes ["YOU-ARE".toList, w] (.youAre ident)
  | nak : Denotes ["NAK".toList] .nak
  | ready {w : List Char} {ws : List (List Char)} {time : Time} {signals : Signals} (denotes : time.DenotedBy w)
      (assignments : AreSignals ws)
      (value : ∀ name v, signals.get? name = some v ↔ ∃ w ∈ ws, Assigns w name v.chars) :
      Denotes ("READY".toList :: w :: ws) (.ready time signals)
  | deliver {w : List Char} {ws : List (List Char)} {time : Time} {signals : Signals} (denotes : time.DenotedBy w)
      (assignments : AreSignals ws)
      (value : ∀ name v, signals.get? name = some v ↔ ∃ w ∈ ws, Assigns w name v.chars) :
      Denotes ("UNTIL".toList :: w :: ws) (.deliver time signals)
  | finish : Denotes ["FINISH".toList] .finish

theorem readTimed_eq_ok_iff {command : Command} {make : Time → Signals → Message} {ws : List (List Char)}
    {m : Message} : readTimed command make ws = .ok m ↔ ∃ w vs time signals, ws = w :: vs ∧ time.DenotedBy w ∧
      vs.foldlM Signals.read .empty = .ok signals ∧ make time signals = m := by
  constructor
  · intro h
    unfold readTimed at h
    split at h
    · cases h
    · next w vs =>
      split at h
      · cases h
      · next time htime =>
        obtain ⟨signals, hsignals, hm⟩ := exists_of_map_eq_ok h
        exact ⟨w, vs, time, signals, rfl, Time.parse_eq_ok_iff.1 htime, hsignals, hm⟩
  · rintro ⟨w, vs, time, signals, rfl, htime, hsignals, rfl⟩
    simp only [readTimed, Time.parse_eq_ok_iff.2 htime, hsignals]
    rfl

theorem readBare_eq_ok_iff {m m' : Message} {ws : List (List Char)} : readBare m ws = .ok m' ↔ ws = [] ∧ m = m' := by
  cases ws <;> simp [readBare]

theorem readYouAre_eq_ok_iff {ws : List (List Char)} {m : Message} :
    readYouAre ws = .ok m ↔ ∃ w ident, ws = [w] ∧ Unsigned w ident.toNat ∧ .youAre ident = m := by
  constructor
  · intro h
    unfold readYouAre at h
    split at h
    · cases h
    · next w vs =>
      split at h
      · cases h
      · cases h
      · next ident hnumber =>
        exact ⟨w, ident, rfl, unsigned32?_eq_some_iff.1 hnumber, Except.ok.inj h⟩
  · rintro ⟨w, ident, rfl, hnumber, rfl⟩
    simp only [readYouAre, unsigned32?_eq_some_iff.2 hnumber]

theorem readHello_eq_ok_iff {ws : List (List Char)} {m : Message} : readHello ws = .ok m ↔
    ∃ name vs options, ws = name :: vs ∧ vs.foldlM Options.read .empty = .ok options ∧
      .hello (String.ofList name) options = m := by
  constructor
  · intro h
    unfold readHello at h
    split at h
    · cases h
    · next name vs =>
      obtain ⟨options, hoptions, hm⟩ := exists_of_map_eq_ok h
      exact ⟨name, vs, options, rfl, hoptions, hm⟩
  · rintro ⟨name, vs, options, rfl, hoptions, rfl⟩
    simp only [readHello, hoptions]
    rfl

theorem readWords_cons (c : Command) (ws : List (List Char)) : readWords (c.word.toList :: ws) =
    match c with
    | .hello => readHello ws
    | .youAre => readYouAre ws
    | .nak => readBare .nak ws
    | .ready => readTimed .ready .ready ws
    | .deliver => readTimed .deliver .deliver ws
    | .finish => readBare .finish ws := by
  rw [readWords, Command.ofWord?_eq_some_iff.2 rfl]
  cases c <;> rfl

theorem exists_command {ws : List (List Char)} {m : Message} (h : readWords ws = .ok m) :
    ∃ (c : Command) (vs : List (List Char)), ws = c.word.toList :: vs := by
  unfold readWords at h
  split at h
  · cases h
  · next w vs =>
    cases hc : Command.ofWord? w with
    | none =>
      rw [hc] at h
      cases h
    | some c => exact ⟨c, vs, by rw [Command.ofWord?_eq_some_iff.1 hc]⟩

theorem denotes_of_readWords {ws : List (List Char)} {m : Message} (h : readWords ws = .ok m) : Denotes ws m := by
  obtain ⟨c, vs, rfl⟩ := exists_command h
  rw [readWords_cons] at h
  cases c with
  | hello =>
    obtain ⟨name, vs, options, rfl, hoptions, rfl⟩ := readHello_eq_ok_iff.1 h
    obtain ⟨hassign, hlast⟩ := Options.foldlM_read_eq_ok_iff.1 hoptions
    exact .hello hassign hlast
  | youAre =>
    obtain ⟨w, ident, rfl, hnumber, rfl⟩ := readYouAre_eq_ok_iff.1 h
    exact .youAre hnumber
  | nak =>
    obtain ⟨rfl, rfl⟩ := readBare_eq_ok_iff.1 h
    exact .nak
  | ready =>
    obtain ⟨w, vs, time, signals, rfl, htime, hsignals, rfl⟩ := readTimed_eq_ok_iff.1 h
    obtain ⟨hassign, hvalue⟩ := Signals.foldlM_read_eq_ok_iff.1 hsignals
    exact .ready htime hassign hvalue
  | deliver =>
    obtain ⟨w, vs, time, signals, rfl, htime, hsignals, rfl⟩ := readTimed_eq_ok_iff.1 h
    obtain ⟨hassign, hvalue⟩ := Signals.foldlM_read_eq_ok_iff.1 hsignals
    exact .deliver htime hassign hvalue
  | finish =>
    obtain ⟨rfl, rfl⟩ := readBare_eq_ok_iff.1 h
    exact .finish

theorem readWords_of_denotes {ws : List (List Char)} {m : Message} (h : Denotes ws m) : readWords ws = .ok m := by
  cases h with
  | hello assignments last =>
    exact (readWords_cons .hello _).trans
      (readHello_eq_ok_iff.2 ⟨_, _, _, rfl, Options.foldlM_read_eq_ok_iff.2 ⟨assignments, last⟩, rfl⟩)
  | youAre number => exact (readWords_cons .youAre _).trans (readYouAre_eq_ok_iff.2 ⟨_, _, rfl, number, rfl⟩)
  | nak => exact readWords_cons .nak []
  | ready denotes assignments value =>
    exact (readWords_cons .ready _).trans
      (readTimed_eq_ok_iff.2 ⟨_, _, _, _, rfl, denotes, Signals.foldlM_read_eq_ok_iff.2 ⟨assignments, value⟩, rfl⟩)
  | deliver denotes assignments value =>
    exact (readWords_cons .deliver _).trans
      (readTimed_eq_ok_iff.2 ⟨_, _, _, _, rfl, denotes, Signals.foldlM_read_eq_ok_iff.2 ⟨assignments, value⟩, rfl⟩)
  | finish => exact readWords_cons .finish []

theorem readWords_eq_ok_iff {ws : List (List Char)} {m : Message} : readWords ws = .ok m ↔ Denotes ws m :=
  ⟨denotes_of_readWords, readWords_of_denotes⟩

theorem exists_denotes_iff {ws : List (List Char)} : (∃ m, Denotes ws m) ↔ Sentence ws := by
  constructor
  · rintro ⟨m, h⟩
    cases h with
    | hello assignments => exact .hello assignments
    | youAre number => exact .youAre number
    | nak => exact .nak
    | ready denotes assignments => exact .ready denotes assignments
    | deliver denotes assignments => exact .deliver denotes assignments
    | finish => exact .finish
  · intro h
    cases h with
    | hello assignments =>
      obtain ⟨options, hread⟩ := Options.exists_foldlM_read_iff.2 assignments
      exact ⟨_, .hello assignments (Options.get?_of_foldlM_read hread)⟩
    | youAre number => exact ⟨_, .youAre number⟩
    | nak => exact ⟨_, .nak⟩
    | ready denotes assignments =>
      obtain ⟨signals, hread⟩ := Signals.exists_foldlM_read_iff.2 assignments
      exact ⟨_, .ready denotes assignments (Signals.get?_of_foldlM_read hread)⟩
    | deliver denotes assignments =>
      obtain ⟨signals, hread⟩ := Signals.exists_foldlM_read_iff.2 assignments
      exact ⟨_, .deliver denotes assignments (Signals.get?_of_foldlM_read hread)⟩
    | finish => exact ⟨_, .finish⟩

/-- **The grammar of lines.** A line is accepted exactly if its words are a sentence, and is then the message that they
denote. -/
theorem decode_iff_grammar (line : String) : ∃ ws, (∀ vs, Spaced line.toList vs ↔ vs = ws) ∧
    ((∃ m, decode line = .ok m) ↔ Sentence ws) ∧ ∀ m, decode line = .ok m ↔ Denotes ws m := by
  refine ⟨words line.toList, fun vs => spaced_iff.trans eq_comm, ?_, fun m => readWords_eq_ok_iff⟩
  rw [← exists_denotes_iff]
  exact exists_congr fun m => readWords_eq_ok_iff

/-! ### Messages that have been read -/

theorem written_of_areSignals {ws : List (List Char)} {signals : Signals} (hws : ∀ w ∈ ws, IsWord w) (h : AreSignals ws)
    (hvalue : ∀ name v, signals.get? name = some v ↔ ∃ w ∈ ws, Assigns w name v.chars) {name : String} {v : Bundle}
    (hv : signals.get? name = some v) : IsName name.toList ∧ 0 < v.width := by
  obtain ⟨w, hw, hassigns⟩ := (hvalue name v).1 hv
  obtain ⟨name', bits, hassigns', hbits⟩ := h.value w hw
  obtain ⟨rfl, rfl⟩ := hassigns.unique hassigns'
  refine ⟨(hassigns.isName (hws w hw)).1, List.length_pos_iff.2 fun hnil => hbits.1 ?_⟩
  rw [Bundle.chars, hnil]
  rfl

theorem Denotes.wireable {ws : List (List Char)} {m : Message} (h : Denotes ws m) (hws : ∀ w ∈ ws, IsWord w) :
    m.Wireable ∧ m.wired = m := by
  cases h with
  | youAre | nak | finish => exact ⟨trivial, rfl⟩
  | @hello name ws options assignments last =>
    refine ⟨⟨by rw [String.toList_ofList]; exact hws name (by simp), fun key value hget => ?_⟩, rfl⟩
    obtain ⟨before, w, after, rfl, hassigns, -⟩ := (last key value).1 hget
    exact hassigns.isName (hws w (by simp))
  | @ready w ws time signals denotes assignments value =>
    have hwritten : ∀ {name v}, signals.get? name = some v → IsName name.toList ∧ 0 < v.width :=
      written_of_areSignals (fun w' hw' => hws w' (by simp [hw'])) assignments value
    exact ⟨fun name v hv => (hwritten hv).1,
      congrArg (Message.ready time) (Signals.wired_eq_self fun name v hv => (hwritten hv).2)⟩
  | @deliver w ws time signals denotes assignments value =>
    have hwritten : ∀ {name v}, signals.get? name = some v → IsName name.toList ∧ 0 < v.width :=
      written_of_areSignals (fun w' hw' => hws w' (by simp [hw'])) assignments value
    exact ⟨fun name v hv => (hwritten hv).1,
      congrArg (Message.deliver time) (Signals.wired_eq_self fun name v hv => (hwritten hv).2)⟩

theorem decode_line {m : Message} (h : m.Wireable) : decode m.line = .ok m.wired := by
  have hwords : words (m.chars ++ ['\n']) = words m.chars :=
    ((spaced_iff.2 rfl).append_blank (by simp [isBlank])).words_eq
  rw [← decode_text h, decode, decode, line, text, String.toList_ofList, String.toList_ofList, hwords]

/-- **Writing and reading.** A message whose texts are words is written as a line that is read as the same message, less
its signals without wires; and every message that has been read is such a message and has no signal without wires. -/
theorem round_trip :
    (∀ m : Message, m.Wireable → (∃ body, m.line.toList = body ++ ['\n'] ∧ '\n' ∉ body) ∧ decode m.line = .ok m.wired) ∧
      ∀ (line : String) (m : Message), decode line = .ok m → m.Wireable ∧ m.wired = m ∧ decode m.line = .ok m := by
  constructor
  · intro m h
    refine ⟨⟨m.chars, by rw [line, String.toList_ofList], fun hmem => ?_⟩, decode_line h⟩
    have hblank := h.isBlank_of_mem hmem (by decide)
    cases hblank
  · intro line m h
    obtain ⟨hwireable, hwired⟩ := (denotes_of_readWords h).wireable fun w => isWord_of_mem_words
    exact ⟨hwireable, hwired, by rw [decode_line hwireable, hwired]⟩

/-- An UNTIL at the last time of all, with a signal that has no wires. -/
def lastMoment : Message :=
  .deliver ⟨18446744073709551615, -2147483648⟩ (.ofList [("C/BE#", ⟨[.one, .unknown]⟩), ("AWID", ⟨[]⟩)])

/-- The signal without wires is missing when the UNTIL has been read, and of two options of one key the first is. -/
theorem last_moment_reads_back : lastMoment.Wireable ∧
    decode lastMoment.line = .ok (.deliver ⟨18446744073709551615, -2147483648⟩ (.ofList [("C/BE#", ⟨[.one, .unknown]⟩)])) ∧
    decode "HELLO card MODE= MODE=a=b\r\n" = .ok (.hello "card" (.ofList [("MODE", "a=b")])) ∧
    decode (Message.hello "card" (.ofList [("MODE", "a=b")])).line = .ok (.hello "card" (.ofList [("MODE", "a=b")])) := by
  have hwireable : lastMoment.Wireable := by
    intro name v hv
    have hmem := SortedMap.mem_of_get?_ofList hv
    simp only [List.mem_cons, List.not_mem_nil, or_false, Prod.mk.injEq] at hmem
    obtain ⟨rfl, -⟩ | ⟨rfl, -⟩ := hmem
    · exact ⟨⟨by simp, by simp [isBlank]⟩, by simp⟩
    · exact ⟨⟨by simp, by simp [isBlank]⟩, by simp⟩
  have hgreeting : decode "HELLO card MODE= MODE=a=b\r\n" = .ok (.hello "card" (.ofList [("MODE", "a=b")])) := by cbv
  have hwired : lastMoment.wired =
      .deliver ⟨18446744073709551615, -2147483648⟩ (.ofList [("C/BE#", ⟨[.one, .unknown]⟩)]) := by cbv
  rw [← hwired]
  exact ⟨hwireable, (round_trip.1 lastMoment hwireable).2, hgreeting, (round_trip.2 _ _ hgreeting).2.2⟩

end Message

end Lockstep
