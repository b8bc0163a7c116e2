import Lockstep.Message.Codec
import Lockstep.Proofs.SortedMap
import Lockstep.Proofs.Text
/-!
# Reading what was written

A message can be written if its texts are words of the wire: they have no blanks, names are not empty, and a name in
front of an `=` has no `=` of its own (`Message.Wireable`). Reading the written line then gives back the message,
except that signals without wires are missing, since they are not written (`Message.decode_text`).

Proof. The line is its words with one blank before each argument, so cutting it at blanks gives back the words
(`Text.words_flatMap`); the command word names the command, and each `NAME=VALUE` word is cut at its first `=`, which
is the one that was put there. The words of a map come in the order of its keys, each key once, so reading them one
after the other meets no key twice and rebuilds the map (`SortedMap.ofList_entries`).
-/

namespace Lockstep

/-! ### Computations that may fail -/

theorem exists_of_bind_eq_ok {ε α β : Type} {x : Except ε α} {f : α → Except ε β} {r : β} (h : x >>= f = .ok r) :
    ∃ a, x = .ok a ∧ f a = .ok r := by
  cases x with
  | error e => cases h
  | ok a => exact ⟨a, rfl, h⟩

theorem exists_of_map_eq_ok {ε α β : Type} {x : Except ε α} {f : α → β} {r : β} (h : x.map f = .ok r) :
    ∃ a, x = .ok a ∧ f a = r := by
  cases x with
  | error e => cases h
  | ok a => exact ⟨a, rfl, Except.ok.inj h⟩

/-! ### Lists that grow at the end -/

theorem foldlM_concat_eq_ok_iff {ε α β : Type} {f : β → α → Except ε β} {b r : β} {as : List α} {a : α} :
    (as ++ [a]).foldlM f b = .ok r ↔ ∃ m, as.foldlM f b = .ok m ∧ f m a = .ok r := by
  simp only [List.foldlM_append, List.foldlM_cons, List.foldlM_nil, bind_pure]
  constructor
  · exact exists_of_bind_eq_ok
  · rintro ⟨m, hm, hr⟩
    rw [hm]
    exact hr

/-- An element after which there are only certain others is the last one, or is followed by one more of them. -/
theorem exists_since_concat_iff {α : Type} {P Q : α → Prop} {as : List α} {a : α} :
    (∃ before e since, as ++ [a] = before ++ e :: since ∧ P e ∧ ∀ e' ∈ since, Q e') ↔
      P a ∨ (∃ before e since, as = before ++ e :: since ∧ P e ∧ ∀ e' ∈ since, Q e') ∧ Q a := by
  constructor
  · rintro ⟨before, e, since, heq, he, hsince⟩
    rcases List.eq_nil_or_concat since with rfl | ⟨since, last, rfl⟩
    · obtain ⟨-, hlast⟩ := List.append_inj' heq rfl
      cases hlast
      exact .inl he
    · have hsplit : as ++ [a] = (before ++ e :: since) ++ [last] := by simpa using heq
      obtain ⟨rfl, hlast⟩ := List.append_inj' hsplit rfl
      cases hlast
      exact .inr ⟨⟨before, e, since, rfl, he, fun e' he' => hsince e' (by simp [he'])⟩, hsince a (by simp)⟩
  · rintro (ha | ⟨⟨before, e, since, rfl, he, hsince⟩, ha⟩)
    · exact ⟨as, a, [], rfl, ha, by simp⟩
    · refine ⟨before, e, since ++ [a], by simp, he, fun e' he' => ?_⟩
      rcases List.mem_append.1 he' with he' | he'
      · exact hsince e' he'
      · rwa [List.mem_singleton.1 he']

open Text

theorem Time.isWord_chars (t : Time) : IsWord t.chars := by
  refine ⟨by simp [chars], fun c hc => ?_⟩
  rcases List.mem_append.1 hc with hc | hc
  · exact (isWord_ofNat _).2 c hc
  · rcases List.mem_cons.1 hc with rfl | hc
    · rfl
    · exact isBlank_of_mem_ofInt hc

/-! ### Bundles -/

namespace Bundle

theorem level_char (l : Level) : level l.char = .ok l := by
  rw [level, Level.ofChar?_eq_some_iff.2 rfl]

theorem mapM_level (ls : List Level) : (ls.map Level.char).mapM level = .ok ls := by
  induction ls with
  | nil => rfl
  | cons l ls ih =>
    rw [List.map_cons, List.mapM_cons, level_char, ih]
    rfl

theorem parse_chars {v : Bundle} (h : 0 < v.width) : parse v.chars = .ok v := by
  have hne : v.chars.isEmpty = false := by
    rw [List.isEmpty_eq_false_iff, chars]
    intro hnil
    rw [List.map_eq_nil_iff, List.reverse_eq_nil_iff] at hnil
    rw [Bundle.width, hnil] at h
    exact absurd h (Nat.lt_irrefl 0)
  rw [parse, hne, chars, mapM_level]
  show Except.ok (⟨v.bits.reverse.reverse⟩ : Bundle) = .ok v
  rw [List.reverse_reverse]

theorem isBlank_of_mem_chars {v : Bundle} {c : Char} (h : c ∈ v.chars) : isBlank c = false := by
  obtain ⟨l, -, rfl⟩ := List.mem_map.1 h
  cases l <;> rfl

end Bundle

/-! ### Assignments -/

theorem readAssignment_assignment {name value : List Char} (h : IsName name) :
    readAssignment (assignment name value) = .ok (String.ofList name, value) := by
  have hcut : cutFirst? '=' (assignment name value) = some (name, value) := cutFirst?_eq_some_iff.2 ⟨rfl, h.2⟩
  rw [readAssignment, hcut]
  cases name with
  | nil => exact absurd rfl h.1.1
  | cons c name => rfl

theorem isWord_assignment {name value : List Char} (h : IsName name) (hvalue : ∀ c ∈ value, isBlank c = false) :
    IsWord (assignment name value) := by
  refine ⟨by simp [assignment], fun c hc => ?_⟩
  rcases List.mem_append.1 hc with hc | hc
  · exact h.1.2 c hc
  · rcases List.mem_cons.1 hc with rfl | hc
    · rfl
    · exact hvalue c hc

theorem Options.read_assignment (options : Options) {key : String} (h : IsName key.toList) (value : String) :
    options.read (assignment key.toList value.toList) = .ok (options.insert key value) := by
  rw [Options.read, readAssignment_assignment h]
  show Except.ok (options.insert (String.ofList key.toList) (String.ofList value.toList)) = _
  rw [String.ofList_toList, String.ofList_toList]

theorem Signals.read_assignment {signals : Signals} {name : String} (h : IsName name.toList) {v : Bundle}
    (hv : 0 < v.width) (hnew : signals.get? name = none) :
    signals.read (assignment name.toList v.chars) = .ok (signals.insert name v) := by
  have hcontains : signals.contains name = false := by rw [SortedMap.contains, hnew]; rfl
  rw [Signals.read, readAssignment_assignment h]
  rw [String.ofList_toList]
  simp only [bind, Except.bind, Bundle.parse_chars hv, hcontains]
  rfl

theorem SortedMap.ofList_entries {α : Type} (m : SortedMap String α) : ofList m.entries = m := by
  refine ext_get? fun k => ?_
  rw [ofList, get?_insertMany_entries]
  cases m.get? k <;> rfl

theorem Options.foldlM_read {es : List (String × String)} (h : ∀ e ∈ es, IsName e.1.toList) (options : Options) :
    (es.map fun e => assignment e.1.toList e.2.toList).foldlM Options.read options = .ok (options.insertMany es) := by
  induction es generalizing options with
  | nil => rfl
  | cons e es ih =>
    rw [List.map_cons, List.foldlM_cons, options.read_assignment (h e (by simp))]
    exact ih (fun e' he' => h e' (by simp [he'])) _

theorem Signals.foldlM_read {es : List (String × Bundle)} (hes : es.Pairwise fun a b => a.1 ≠ b.1)
    (h : ∀ e ∈ es, IsName e.1.toList ∧ 0 < e.2.width) (signals : Signals)
    (hnew : ∀ e ∈ es, signals.get? e.1 = none) :
    (es.map fun e => assignment e.1.toList e.2.chars).foldlM Signals.read signals = .ok (signals.insertMany es) := by
  induction es generalizing signals with
  | nil => rfl
  | cons e es ih =>
    obtain ⟨hname, hwidth⟩ := h e (by simp)
    rw [List.map_cons, List.foldlM_cons, read_assignment hname hwidth (hnew e (by simp))]
    refine ih hes.of_cons (fun e' he' => h e' (by simp [he'])) _ fun e' he' => ?_
    rw [SortedMap.get?_insert, if_neg (List.rel_of_pairwise_cons hes he').symm]
    exact hnew e' (by simp [he'])

/-! ### Messages -/

theorem Command.isWord_word (c : Command) : IsWord c.word.toList := by
  have hblanks : c.word.toList.any isBlank = false := by cases c <;> rfl
  refine ⟨by cases c <;> decide, fun ch hch => ?_⟩
  simpa using List.any_eq_false.1 hblanks ch hch

def Signals.wired (signals : Signals) : Signals := signals.filter fun _ v => 0 < v.width

theorem Signals.get?_wired (signals : Signals) (name : String) :
    signals.wired.get? name = (signals.get? name).filter fun v => 0 < v.width :=
  SortedMap.get?_filter _ _ _

theorem Signals.wired_eq_self {signals : Signals} (h : ∀ name v, signals.get? name = some v → 0 < v.width) :
    signals.wired = signals := by
  refine SortedMap.ext_get? fun name => ?_
  rw [get?_wired]
  cases hv : signals.get? name with
  | none => rfl
  | some v => rw [Option.filter_some, if_pos (decide_eq_true (h name v hv))]

namespace Message

/-- The message without the signals that have no wires. -/
def wired : Message → Message
  | .ready time signals => .ready time signals.wired
  | .deliver time signals => .deliver time signals.wired
  | m => m

/-- The texts of the message are words of the wire. -/
def Wireable : Message → Prop
  | .hello name options => IsWord name.toList ∧ ∀ key value, options.get? key = some value →
      IsName key.toList ∧ ∀ c ∈ value.toList, isBlank c = false
  | .ready _ signals | .deliver _ signals => ∀ name v, signals.get? name = some v → IsName name.toList
  | .youAre _ | .nak | .finish => True

theorem isWord_signals {signals : Signals} (h : ∀ name v, signals.get? name = some v → IsName name.toList)
    {w : List Char} (hw : w ∈ signals.words) : IsWord w := by
  obtain ⟨⟨name, v⟩, hmem, rfl⟩ := List.mem_map.1 hw
  have hget := SortedMap.mem_entries_iff.1 (List.mem_filter.1 hmem).1
  exact isWord_assignment (h name v hget) fun _ => Bundle.isBlank_of_mem_chars

theorem Wireable.isWord {m : Message} (h : m.Wireable) {w : List Char} (hw : w ∈ m.arguments) : IsWord w := by
  cases m with
  | nak | finish => cases hw
  | youAre ident =>
    obtain rfl := List.mem_singleton.1 hw
    exact isWord_ofNat _
  | hello name options =>
    rcases List.mem_cons.1 hw with rfl | hw
    · exact h.1
    · obtain ⟨⟨key, value⟩, hmem, rfl⟩ := List.mem_map.1 hw
      obtain ⟨hkey, hvalue⟩ := h.2 key value (SortedMap.mem_entries_iff.1 hmem)
      exact isWord_assignment hkey hvalue
  | ready time signals | deliver time signals =>
    rcases List.mem_cons.1 hw with rfl | hw
    · exact time.isWord_chars
    · exact isWord_signals h hw

theorem Wireable.isBlank_of_mem {m : Message} (h : m.Wireable) {c : Char} (hc : c ∈ m.chars) (hspace : c ≠ ' ') :
    isBlank c = false := by
  rcases List.mem_append.1 hc with hc | hc
  · exact m.command.isWord_word.2 c hc
  · obtain ⟨w, hw, hc⟩ := List.mem_flatMap.1 hc
    rcases List.mem_cons.1 hc with rfl | hc
    · exact absurd rfl hspace
    · exact (h.isWord hw).2 c hc

theorem words_chars {m : Message} (h : m.Wireable) : words m.chars = m.command.word.toList :: m.arguments :=
  words_flatMap m.command.isWord_word fun _ => h.isWord

theorem readTimed_words (command : Command) (make : Time → Signals → Message) (time : Time) {signals : Signals}
    (h : ∀ name v, signals.get? name = some v → IsName name.toList) :
    readTimed command make (time.chars :: signals.words) = .ok (make time signals.wired) := by
  have hwords : signals.words = signals.wired.entries.map fun e => assignment e.1.toList e.2.chars := rfl
  have hne : signals.wired.entries.Pairwise fun a b => a.1 ≠ b.1 := by
    refine signals.wired.sorted.imp fun {a b} hlt heq => ?_
    rw [heq] at hlt
    exact Std.lt_irrefl hlt
  have hentry : ∀ e ∈ signals.wired.entries, IsName e.1.toList ∧ 0 < e.2.width := by
    intro e he
    have hget := SortedMap.mem_entries_iff.1 he
    rw [Signals.get?_wired, Option.filter_eq_some_iff] at hget
    exact ⟨h e.1 e.2 hget.1, of_decide_eq_true hget.2⟩
  have hread := Signals.foldlM_read hne hentry .empty fun _ _ => rfl
  rw [readTimed, Time.parse_chars, hwords]
  dsimp only
  rw [hread]
  exact congrArg (fun s => Except.ok (make time s)) signals.wired.ofList_entries

theorem decode_text {m : Message} (h : m.Wireable) : decode m.text = .ok m.wired := by
  have hcommand : ∀ c : Command, Command.ofWord? c.word.toList = some c := by
    intro c
    cases c <;> rfl
  rw [decode, text, String.toList_ofList, words_chars h, readWords, hcommand]
  cases m with
  | nak | finish => rfl
  | youAre ident =>
    show readYouAre [Text.ofNat ident.toNat] = _
    simp only [readYouAre, unsigned32?_ofNat_toNat]
    rfl
  | hello name options =>
    have hkeys : ∀ e ∈ options.entries, IsName e.1.toList := fun e he =>
      (h.2 e.1 e.2 (SortedMap.mem_entries_iff.1 he)).1
    have hread := Options.foldlM_read hkeys .empty
    show readHello (name.toList :: options.words) = _
    rw [readHello, Options.words, hread, String.ofList_toList]
    exact congrArg (fun o => Except.ok (Message.hello name o)) options.ofList_entries
  | ready time signals => exact readTimed_words .ready .ready time h
  | deliver time signals => exact readTimed_words .deliver .deliver time h

end Message

end Lockstep
