import Lockstep.Text.Numeral
import Lockstep.Text.Word
/-!
# Words and numerals by their meaning

A line is read as a list of words and a word may be read as a number. Here it is said what is read without saying how:
a line consists of words with blanks between them (`Spaced`), and a numeral denotes a number digit by digit (`Decimal`,
`Unsigned`, `Signed`). The functions that read find these and nothing else (`spaced_iff`, `digits?_eq_some_iff` and its
followers), so a numeral is refused exactly if it denotes no number or one that does not fit.
-/

namespace Lockstep.Text

/-- A text that can stand between blanks. -/
def IsWord (cs : List Char) : Prop := cs ≠ [] ∧ ∀ c ∈ cs, isBlank c = false

/-- A text that can stand before an `=`. -/
def IsName (cs : List Char) : Prop := IsWord cs ∧ '=' ∉ cs

/-! ### Words -/

/-- The words `ws` are the maximal runs of characters of a line that are not blank. -/
inductive Spaced : List Char → List (List Char) → Prop where
  | blank {gap : List Char} (blank : ∀ c ∈ gap, isBlank c = true) : Spaced gap []
  /-- A word ends where a blank follows, or the line ends. -/
  | word (gap : List Char) {w rest : List Char} {ws : List (List Char)} (blank : ∀ c ∈ gap, isBlank c = true)
      (isWord : IsWord w) (ends : ∀ c, rest.head? = some c → isBlank c = true) (spaced : Spaced rest ws) :
      Spaced (gap ++ w ++ rest) (w :: ws)

theorem words_append_of_blank {gap : List Char} (h : ∀ c ∈ gap, isBlank c = true) (cs : List Char) :
    words (gap ++ cs) = words cs := by
  induction gap with
  | nil => rfl
  | cons c gap ih =>
    rw [List.cons_append, words, List.splitOnP_cons_eq_if_modifyHead, if_pos (h c (by simp)), List.filter_cons,
      if_neg (by simp)]
    exact ih fun c' hc' => h c' (by simp [hc'])

theorem words_append_of_isWord {w rest : List Char} (hw : IsWord w)
    (hends : ∀ c, rest.head? = some c → isBlank c = true) : words (w ++ rest) = w :: words rest := by
  have hkeep : (!w.isEmpty) = true := by simpa using hw.1
  cases rest with
  | nil =>
    rw [List.append_nil, words, List.splitOnP_eq_singleton hw.2, List.filter_cons, if_pos hkeep]
    rfl
  | cons c rest =>
    have hc : isBlank c = true := hends c rfl
    have hgap : ∀ b ∈ [c], isBlank b = true := by simpa using hc
    have hrest : words (c :: rest) = words rest := words_append_of_blank hgap rest
    rw [hrest, words, List.splitOnP_append_cons_of_forall_mem hw.2 _ hc, List.filter_cons, if_pos hkeep]
    rfl

theorem words_flatMap {w : List Char} {ws : List (List Char)} (hw : IsWord w) (hws : ∀ v ∈ ws, IsWord v) :
    words (w ++ ws.flatMap fun v => ' ' :: v) = w :: ws := by
  induction ws generalizing w with
  | nil => exact words_append_of_isWord hw (by simp)
  | cons v ws ih =>
    have hrest := ih (hws v (by simp)) fun u hu => hws u (by simp [hu])
    have hgap : ∀ c ∈ [' '], isBlank c = true := by simp [isBlank]
    rw [List.flatMap_cons, List.cons_append, words_append_of_isWord hw (by simp [isBlank])]
    exact congrArg (w :: ·) ((words_append_of_blank hgap _).trans hrest)

theorem Spaced.words_eq {cs : List Char} {ws : List (List Char)} (h : Spaced cs ws) : words cs = ws := by
  induction h with
  | @blank gap hblank =>
    have hnil := words_append_of_blank hblank []
    rwa [List.append_nil] at hnil
  | word gap hblank hw hends _ ih =>
    rw [List.append_assoc, words_append_of_blank hblank, words_append_of_isWord hw hends, ih]

theorem Spaced.append_blank {cs gap : List Char} {ws : List (List Char)} (h : Spaced cs ws)
    (hgap : ∀ c ∈ gap, isBlank c = true) : Spaced (cs ++ gap) ws := by
  induction h with
  | blank hblank =>
    refine .blank fun c hc => ?_
    rcases List.mem_append.1 hc with hc | hc
    · exact hblank c hc
    · exact hgap c hc
  | @word before w rest ws hblank hw hends _ ih =>
    rw [List.append_assoc _ rest]
    refine .word before hblank hw (fun c hc => ?_) ih
    cases rest with
    | nil => exact hgap c (List.mem_of_mem_head? hc)
    | cons b rest => exact hends c hc

theorem exists_spaced (cs : List Char) : ∃ ws, Spaced cs ws := by
  induction cs with
  | nil => exact ⟨[], .blank (by simp)⟩
  | cons c cs ih =>
    obtain ⟨ws, h⟩ := ih
    cases hc : isBlank c with
    | true =>
      cases h with
      | blank hgap => exact ⟨[], .blank (by simpa [hc] using hgap)⟩
      | @word gap w rest ws hgap hw hends hrest =>
        exact ⟨w :: ws, .word (c :: gap) (by simpa [hc] using hgap) hw hends hrest⟩
    | false =>
      have hsingle : IsWord [c] := ⟨by simp, by simpa using hc⟩
      cases h with
      | blank hgap =>
        exact ⟨[[c]], .word [] (by simp) hsingle (fun b hb => hgap b (List.mem_of_mem_head? hb)) (.blank hgap)⟩
      | @word gap w rest ws hgap hw hends hrest =>
        cases gap with
        | nil =>
          -- the character belongs to the word that follows
          have hlonger : IsWord (c :: w) := ⟨by simp, by simpa [hc] using hw.2⟩
          exact ⟨(c :: w) :: ws, .word [] (by simp) hlonger hends hrest⟩
        | cons b gap =>
          refine ⟨[c] :: w :: ws, .word [] (by simp) hsingle (fun b' hb' => ?_) (.word _ hgap hw hends hrest)⟩
          cases hb'
          exact hgap b (by simp)

theorem spaced_iff {cs : List Char} {ws : List (List Char)} : Spaced cs ws ↔ words cs = ws := by
  refine ⟨Spaced.words_eq, ?_⟩
  rintro rfl
  obtain ⟨ws, h⟩ := exists_spaced cs
  rwa [h.words_eq]

theorem isWord_of_mem_words {cs w : List Char} (h : w ∈ words cs) : IsWord w := by
  have hspaced := spaced_iff.2 (Eq.refl (words cs))
  generalize words cs = ws at h hspaced
  induction hspaced with
  | blank => cases h
  | word _ _ hw _ _ ih =>
    rcases List.mem_cons.1 h with rfl | h
    · exact hw
    · exact ih h

/-! ### Numerals -/

/-- The number that decimal digits denote, the most significant one first. -/
inductive Decimal : List Char → Nat → Prop where
  | digit {c : Char} (isDigit : c.isDigit = true) : Decimal [c] (c.toNat - '0'.toNat)
  | snoc {cs : List Char} {n : Nat} (h : Decimal cs n) {c : Char} (isDigit : c.isDigit = true) :
      Decimal (cs ++ [c]) (10 * n + (c.toNat - '0'.toNat))

/-- A decimal number with an optional `+`. -/
inductive Unsigned : List Char → Nat → Prop where
  | plain {cs : List Char} {n : Nat} (h : Decimal cs n) : Unsigned cs n
  | plus {cs : List Char} {n : Nat} (h : Decimal cs n) : Unsigned ('+' :: cs) n

/-- A decimal number with an optional sign. -/
inductive Signed : List Char → Int → Prop where
  | plain {cs : List Char} {n : Nat} (h : Decimal cs n) : Signed cs n
  | plus {cs : List Char} {n : Nat} (h : Decimal cs n) : Signed ('+' :: cs) n
  | minus {cs : List Char} {n : Nat} (h : Decimal cs n) : Signed ('-' :: cs) (-n)

theorem isBlank_of_isDigit {c : Char} (h : c.isDigit = true) : isBlank c = false := by
  refine Bool.eq_false_iff.2 fun hblank => ?_
  simp only [isBlank, Bool.or_eq_true, decide_eq_true_eq] at hblank
  rcases hblank with (((rfl | rfl) | rfl) | rfl) | rfl <;> revert h <;> decide

theorem isWord_ofNat (n : Nat) : IsWord (ofNat n) :=
  ⟨ofNat_ne_nil n, fun _ hc => isBlank_of_isDigit (isDigit_of_mem_ofNat hc)⟩

theorem isBlank_of_mem_ofInt {i : Int} {c : Char} (h : c ∈ ofInt i) : isBlank c = false := by
  cases i with
  | ofNat n => exact (isWord_ofNat n).2 c h
  | negSucc n =>
    rcases List.mem_cons.1 h with rfl | h
    · rfl
    · exact (isWord_ofNat _).2 c h

theorem Decimal.isDigit_of_mem {cs : List Char} {n : Nat} (h : Decimal cs n) {c : Char} (hc : c ∈ cs) :
    c.isDigit = true := by
  induction h with
  | digit hd =>
    obtain rfl := List.mem_singleton.1 hc
    exact hd
  | snoc _ hd ih =>
    rcases List.mem_append.1 hc with hc | hc
    · exact ih hc
    · obtain rfl := List.mem_singleton.1 hc
      exact hd

theorem Decimal.append {cs ds : List Char} {n : Nat} (h : Decimal cs n) (hds : ∀ d ∈ ds, d.isDigit = true) :
    Decimal (cs ++ ds) (Nat.ofDigitChars 10 ds n) := by
  induction ds generalizing cs n with
  | nil => rwa [List.append_nil]
  | cons d ds ih =>
    have hmore := ih (h.snoc (hds d (by simp))) fun d' hd' => hds d' (by simp [hd'])
    rwa [List.append_assoc, List.singleton_append, ← Nat.ofDigitChars_cons] at hmore

theorem digits?_eq_some_iff {cs : List Char} {n : Nat} : digits? cs = some n ↔ Decimal cs n := by
  constructor
  · intro h
    unfold digits? at h
    split at h
    · next hcs =>
      obtain ⟨hne, hall⟩ := hcs
      rw [List.all_eq_true] at hall
      cases h
      cases cs with
      | nil => exact absurd rfl hne
      | cons c ds =>
        have hds : ∀ d ∈ ds, d.isDigit = true := fun d hd => hall d (by simp [hd])
        have hmore := (Decimal.digit (hall c (by simp))).append hds
        rwa [Nat.ofDigitChars_cons, Nat.mul_zero, Nat.zero_add]
    · cases h
  · intro h
    have hread : cs ≠ [] ∧ cs.all Char.isDigit = true ∧ Nat.ofDigitChars 10 cs 0 = n := by
      induction h with
      | digit hc => exact ⟨by simp, by simpa using hc, by simp [Nat.ofDigitChars_cons]⟩
      | snoc h hc ih =>
        obtain ⟨-, hall, hn⟩ := ih
        refine ⟨by simp, by simp [hall, hc], ?_⟩
        rw [Nat.ofDigitChars_append, hn, Nat.ofDigitChars_cons, Nat.ofDigitChars_nil]
    rw [digits?, if_pos ⟨hread.1, hread.2.1⟩, hread.2.2]

theorem natural?_eq_some_iff {cs : List Char} {n : Nat} : natural? cs = some n ↔ Unsigned cs n := by
  constructor
  · intro h
    unfold natural? at h
    split at h
    · exact .plus (digits?_eq_some_iff.1 h)
    · exact .plain (digits?_eq_some_iff.1 h)
  · intro h
    cases h with
    | plus h => exact digits?_eq_some_iff.2 h
    | plain h =>
      unfold natural?
      split
      · exact absurd (h.isDigit_of_mem (c := '+') (by simp)) (by decide)
      · exact digits?_eq_some_iff.2 h

theorem integer?_eq_some_iff {cs : List Char} {i : Int} : integer? cs = some i ↔ Signed cs i := by
  have hdigits : ∀ {ds : List Char} {f : Int → Int},
      ((do let n ← digits? ds; pure (n : Int)) : Option Int).map f = some i → ∃ n : Nat, Decimal ds n ∧ f n = i := by
    intro ds f h
    obtain ⟨_, hread, rfl⟩ := Option.map_eq_some_iff.1 h
    obtain ⟨n, hn, hcast⟩ := Option.bind_eq_some_iff.1 hread
    cases hcast
    exact ⟨n, digits?_eq_some_iff.1 hn, rfl⟩
  constructor
  · intro h
    unfold integer? at h
    split at h <;> obtain ⟨n, hn, rfl⟩ := hdigits h
    · exact .minus hn
    · exact .plus hn
    · exact .plain hn
  · intro h
    cases h with
    | plus h | minus h =>
      rw [integer?, digits?_eq_some_iff.2 h]
      rfl
    | plain h =>
      unfold integer?
      split
      · exact absurd (h.isDigit_of_mem (c := '-') (by simp)) (by decide)
      · exact absurd (h.isDigit_of_mem (c := '+') (by simp)) (by decide)
      · rw [digits?_eq_some_iff.2 h]
        rfl

theorem map_naturalBelow?_eq_some_iff {α : Type} {bound : Nat} {ofNat : Nat → α} {toNat : α → Nat}
    (hword : ∀ n < bound, toNat (ofNat n) = n) (hnumber : ∀ a, toNat a < bound ∧ ofNat (toNat a) = a)
    {cs : List Char} {a : α} : (naturalBelow? bound cs).map ofNat = some a ↔ Unsigned cs (toNat a) := by
  rw [naturalBelow?, ← natural?_eq_some_iff, Option.map_eq_some_iff]
  constructor
  · rintro ⟨n, hn, rfl⟩
    obtain ⟨hn, hlt⟩ := Option.filter_eq_some_iff.1 hn
    rw [hn, hword n (of_decide_eq_true hlt)]
  · intro h
    obtain ⟨hlt, hof⟩ := hnumber a
    exact ⟨toNat a, Option.filter_eq_some_iff.2 ⟨h, decide_eq_true hlt⟩, hof⟩

theorem unsigned16?_eq_some_iff {cs : List Char} {n : UInt16} : unsigned16? cs = some n ↔ Unsigned cs n.toNat :=
  map_naturalBelow?_eq_some_iff (fun _ h => UInt16.toNat_ofNat_of_lt' h)
    fun a => ⟨a.toNat_lt_size, UInt16.ofNat_toNat⟩

theorem unsigned32?_eq_some_iff {cs : List Char} {n : UInt32} : unsigned32? cs = some n ↔ Unsigned cs n.toNat :=
  map_naturalBelow?_eq_some_iff (fun _ h => UInt32.toNat_ofNat_of_lt' h)
    fun a => ⟨a.toNat_lt_size, UInt32.ofNat_toNat⟩

theorem signed32?_eq_some_iff {cs : List Char} {i : Int32} : signed32? cs = some i ↔ Signed cs i.toInt := by
  rw [signed32?, ← integer?_eq_some_iff, Option.map_eq_some_iff]
  constructor
  · rintro ⟨k, hk, rfl⟩
    obtain ⟨hk, hrange⟩ := Option.filter_eq_some_iff.1 hk
    obtain ⟨hlow, hhigh⟩ := of_decide_eq_true hrange
    rw [hk, Int32.toInt_ofInt_of_le hlow (Int.lt_of_le_of_lt hhigh (by decide))]
  · intro h
    have hrange : Int32.minValue.toInt ≤ i.toInt ∧ i.toInt ≤ Int32.maxValue.toInt :=
      ⟨i.minValue_le_toInt, i.toInt_le⟩
    exact ⟨i.toInt, Option.filter_eq_some_iff.2 ⟨h, decide_eq_true hrange⟩, Int32.ofInt_toInt i⟩

end Lockstep.Text
