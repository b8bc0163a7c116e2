import Lockstep.Proofs.Server.Binding
/-!
# What one connection is sent

The messages that a server sends to one connection form a `Transcript`: nothing, or a single NAK, or YOU-ARE and
then UNTILs of increasing time, until a FINISH ends them. `Server.Ledger` relates what has been sent so far to the
state of the connection, and every move of the server keeps it (`Ledger.moved`), whether the message comes from a
line or from a service pass. `Server.Answers` says what each message answers.
-/

namespace Lockstep

/-- The messages that carry times and signals. -/
def untilsOf (us : List (Time × Signals)) : List Message := us.map fun u => .deliver u.1 u.2

/-- Each UNTIL is later than those before it. -/
def Increasing (us : List (Time × Signals)) : Prop := us.Pairwise fun u v => u.1.cmp v.1 = .lt

/-- The messages to one connection, in order. -/
inductive Transcript : List Message → Prop where
  | silent : Transcript []
  | refused : Transcript [.nak]
  | welcomed (i : Ident) (us : List (Time × Signals)) (increasing : Increasing us) :
      Transcript (.youAre i :: untilsOf us)
  | left (i : Ident) (us : List (Time × Signals)) (increasing : Increasing us) :
      Transcript (.youAre i :: untilsOf us ++ [.finish])

namespace Server

/-- What has been sent to connection `k` of a server, by the state of the connection. -/
inductive Ledger (s : Server) (k : ConnectionKey) : List Message → Prop where
  /-- Nobody has been welcomed or refused there. -/
  | silent (h : ∀ c, s.connections.get? k = some c → c.ident = none) : Ledger s k []
  /-- The connection is bound to slot `i` and has been sent nothing later than its bus. -/
  | bound (c : Connection) (b : Bus) (i : Ident) (us : List (Time × Signals)) (hc : s.connections.get? k = some c)
      (hi : c.ident = some i) (hb : s.buses[c.bus]? = some b) (increasing : Increasing us)
      (past : ∀ u ∈ us, u.1.exponent = Time.picosecondExponent ∧ u.1.mantissa.toNat ≤ b.time.mantissa.toNat) :
      Ledger s k (.youAre i :: untilsOf us)
  /-- The connection is gone, and its key with it. -/
  | gone (sent : List Message) (h : s.connections.get? k = none) (used : k < s.nextKey)
      (transcript : Transcript sent) : Ledger s k sent

namespace Ledger

variable {s s' : Server} {k : ConnectionKey} {sent : List Message} {actions : List ServerAction}

theorem transcript (h : Ledger s k sent) : Transcript sent := by
  cases h with
  | silent => exact .silent
  | bound c b i us hc hi hb increasing => exact .welcomed i us increasing
  | gone _ _ _ transcript => exact transcript

theorem frame (h : Ledger s k sent) (hget : s'.connections.get? k = s.connections.get? k)
    (hnext : s.nextKey ≤ s'.nextKey)
    (htime : ∀ (n : Nat) (b : Bus), s.buses[n]? = some b →
      ∃ b', s'.buses[n]? = some b' ∧ b.time.mantissa.toNat ≤ b'.time.mantissa.toNat) : Ledger s' k sent := by
  cases h with
  | silent h => exact .silent (hget ▸ h)
  | bound c b i us hc hi hb increasing past =>
    obtain ⟨b', hb', hle⟩ := htime c.bus b hb
    exact .bound c b' i us (hget.trans hc) hi hb' increasing fun u hu =>
      ⟨(past u hu).1, Nat.le_trans (past u hu).2 hle⟩
  | gone _ h used transcript => exact .gone _ (hget.trans h) (Nat.lt_of_lt_of_le used hnext) transcript

theorem close (h : Ledger s k sent) (hnone : s'.connections.get? k = none) (used : k < s'.nextKey) :
    Ledger s' k sent := .gone _ hnone used h.transcript

theorem eq_nil (h : Ledger s k sent) {c : Connection} (hc : s.connections.get? k = some c)
    (hfree : c.ident = none) : sent = [] := by
  cases h with
  | silent => rfl
  | bound c' b i us hc' hi =>
    rw [hc] at hc'
    cases hc'
    cases hfree.symm.trans hi
  | gone _ h => cases hc.symm.trans h

theorem eq_nil_of_unused {s : Server} {k : ConnectionKey} {sent : List Message} (h : Ledger s k sent)
    (hs : s.Consistent) (hk : s.nextKey ≤ k) : sent = [] := by
  cases h with
  | silent => rfl
  | bound c b i us hc => exact absurd (hs.fresh hc) (Nat.not_lt.2 hk)
  | gone _ _ used => exact absurd used (Nat.not_lt.2 hk)

theorem of_bound (h : Ledger s k sent) {c : Connection} {b : Bus} {i : Ident}
    (hc : s.connections.get? k = some c) (hi : c.ident = some i) (hb : s.buses[c.bus]? = some b) :
    ∃ us, sent = .youAre i :: untilsOf us ∧ Increasing us ∧
      ∀ u ∈ us, u.1.exponent = Time.picosecondExponent ∧ u.1.mantissa.toNat ≤ b.time.mantissa.toNat := by
  cases h with
  | silent h => cases (h c hc).symm.trans hi
  | bound c' b' i' us hc' hi' hb' increasing past =>
    rw [hc] at hc'
    cases hc'
    rw [hi] at hi'
    cases hi'
    rw [hb] at hb'
    cases hb'
    exact ⟨us, rfl, increasing, past⟩
  | gone _ h => cases hc.symm.trans h

end Ledger

theorem increasing_concat {us : List (Time × Signals)} {time : Time} (signals : Signals) (h : Increasing us)
    (hexponent : time.exponent = Time.picosecondExponent)
    (hlate : ∀ u ∈ us, u.1.exponent = Time.picosecondExponent ∧ u.1.mantissa.toNat < time.mantissa.toNat) :
    Increasing (us ++ [(time, signals)]) := by
  refine List.pairwise_append.2 ⟨h, List.pairwise_singleton _ _, fun u hu v hv => ?_⟩
  obtain rfl := List.mem_singleton.1 hv
  obtain ⟨hu', hlt⟩ := hlate u hu
  exact (Time.cmp_eq_lt_iff (hu'.trans hexponent.symm)).2 hlt

/-! ### Moves -/

theorem time_setBus {s : Server} {n : Nat} {b : Bus} (hb : s.buses[n]? = some b) (b' : Bus)
    (hle : b.time.mantissa.toNat ≤ b'.time.mantissa.toNat) (m : Nat) (bm : Bus) (hbm : s.buses[m]? = some bm) :
    ∃ bm', (s.setBus n b').buses[m]? = some bm' ∧ bm.time.mantissa.toNat ≤ bm'.time.mantissa.toNat := by
  by_cases hm : m = n
  · subst hm
    rw [hb] at hbm
    cases hbm
    exact ⟨b', buses_setBus hb b', hle⟩
  · exact ⟨bm, (buses_setBus_of_ne (Ne.symm hm) s b').trans hbm, Nat.le_refl _⟩

theorem time_stepped {b : Bus} {ds : List Delivery} (hb : b.Sound) (h : b.advance.1 = .stepped ds) :
    b.advance.2.1.time.exponent = Time.picosecondExponent ∧
      b.time.mantissa.toNat < b.advance.2.1.time.mantissa.toNat := by
  have hspec := b.advance_spec
  rw [h] at hspec
  generalize b.advance.2.1 = b' at hspec
  cases hspec with
  | stepped engine ps time live ready shown sum => exact hb.add_elapsed sum

theorem time_failed {b : Bus} {cause : AdvanceError} (h : b.advance.1 = .failed cause) :
    b.advance.2.1.time = b.time := by
  have hspec := b.advance_spec
  rw [h] at hspec
  generalize b.advance.2.1 = b' at hspec
  cases hspec with
  | failed => rfl

namespace Ledger

variable {s s' : Server} {k : ConnectionKey} {sent : List Message} {actions : List ServerAction}

theorem forget (h : Ledger s k sent) {j : ConnectionKey} (hj : j ≠ k) : Ledger (s.forget j) k sent := by
  refine h.frame ?_ (Nat.le_refl _) fun n b hb => ⟨b, hb, Nat.le_refl _⟩
  rw [get?_forget, if_neg (Ne.symm hj)]

theorem setBus (h : Ledger s k sent) {n : Nat} {b : Bus} (hb : s.buses[n]? = some b) (b' : Bus)
    (hle : b.time.mantissa.toNat ≤ b'.time.mantissa.toNat) : Ledger (s.setBus n b') k sent :=
  h.frame rfl (Nat.le_refl _) (time_setBus hb b' hle)

theorem step (h : Ledger s k sent) (hs : s.Consistent) {n : Nat} {b : Bus} {ds : List Delivery}
    (hb : s.buses[n]? = some b) (hadvance : b.advance.1 = .stepped ds) :
    Ledger (s.setBus n b.advance.2.1) k (sent ++ sentTo k (ds.map fun d => .send d.1 d.2)) := by
  obtain ⟨hexponent, hlt⟩ := time_stepped (hs.sound hb) hadvance
  by_cases hheld : ∃ i, b.Holds i k
  · obtain ⟨i, hi⟩ := hheld
    obtain ⟨c, hc, rfl, hbound⟩ := hs.known ⟨b, hb, hi⟩
    rw [hs.sentTo_of_holds hb hadvance hi]
    obtain ⟨us, rfl, hincreasing, hpast⟩ := h.of_bound hc hbound hb
    have hlate : Increasing (us ++ [(b.advance.2.1.time, b.advance.2.1.participants.shown i)]) :=
      increasing_concat _ hincreasing hexponent fun u hu =>
        ⟨(hpast u hu).1, Nat.lt_of_le_of_lt (hpast u hu).2 hlt⟩
    have hself := buses_setBus hb b.advance.2.1
    have := Ledger.bound (s := s.setBus c.bus b.advance.2.1) c b.advance.2.1 i _ hc hbound hself hlate ?_
    · simpa [untilsOf] using this
    · intro u hu
      rcases List.mem_append.1 hu with hu | hu
      · exact ⟨(hpast u hu).1, Nat.le_of_lt (Nat.lt_of_le_of_lt (hpast u hu).2 hlt)⟩
      · obtain rfl := List.mem_singleton.1 hu
        exact ⟨hexponent, Nat.le_refl _⟩
  · rw [sentTo_of_not_holds hadvance (not_exists.1 hheld), List.append_nil]
    exact h.setBus hb _ (Nat.le_of_lt hlt)

theorem retired (h : Ledger s k sent) {j : ConnectionKey} {c : Connection} {b : Bus}
    (hj : j ≠ k) (hb : s.buses[c.bus]? = some b) (i : Ident) : Ledger (s.retired j c.bus b i) k sent :=
  (h.setBus hb (b.retire i) (Nat.le_refl _)).forget hj

theorem moved (h : Ledger s k sent) (hs : s.Consistent) {m : Move} (hm : s.Moved m s' actions) :
    Ledger s' k (sent ++ sentTo k actions) := by
  have herase : ∀ {t : Server} {j}, (t.forget j).connections.get? j = none := by
    intro t j
    rw [get?_forget, if_pos rfl]
  cases hm with
  | ignored | waiting => simpa using h
  | opened n peer =>
    rw [sentTo_nil, List.append_nil]
    have hget := s.get?_opened n peer k
    by_cases hk : k = s.nextKey
    · rw [if_pos hk] at hget
      rw [h.eq_nil_of_unused hs (Nat.le_of_eq hk.symm)]
      refine .silent fun c hc => ?_
      rw [hget] at hc
      cases hc
      rfl
    · rw [if_neg hk] at hget
      exact h.frame hget (Nat.le_succ _) fun n b hb => ⟨b, hb, Nat.le_refl _⟩
  | admitted j text c b name options slot widths notices hc free hb decoded admits =>
    have hget := s.get?_admitted j c.bus b slot.ident options widths k
    have htime := time_setBus hb (b.modifySlot slot.ident (·.claim j options widths)) (Nat.le_refl _)
    simp only [sentTo_append, sentTo_notes, sentTo_send, sentTo_nil, List.nil_append]
    by_cases hj : j = k
    · subst hj
      rw [if_pos rfl, hc] at hget
      obtain ⟨b', hb', hle⟩ := htime c.bus b hb
      rw [h.eq_nil hc free, if_pos rfl]
      exact .bound _ b' slot.ident [] hget rfl hb' List.Pairwise.nil
        fun _ hu => absurd hu List.not_mem_nil
    · rw [if_neg (Ne.symm hj)] at hget
      rw [if_neg hj, List.append_nil]
      exact h.frame hget (Nat.le_refl _) htime
  | refused j text c b name options reason notices hc free =>
    simp only [sentTo_append, sentTo_notes, sentTo_send, sentTo_close, sentTo_nil, List.nil_append]
    by_cases hj : j = k
    · subst hj
      rw [h.eq_nil hc free, if_pos rfl]
      exact .gone _ herase (hs.fresh hc) .refused
    · rw [if_neg hj, List.append_nil]
      exact h.forget hj
  | dropped j e c notices about hc free =>
    simp only [sentTo_append, sentTo_notes, sentTo_close, sentTo_nil, List.append_nil]
    by_cases hj : j = k
    · subst hj
      exact h.close herase (hs.fresh hc)
    · exact h.forget hj
  | offered j text c b i notices hc bound hb heard =>
    rw [sentTo_notes, List.append_nil]
    obtain ⟨slot, hslot, -⟩ := hs.slot_of_bound hc bound hb
    rcases Bus.hear_spec hslot text with ⟨cause, -, heq⟩ | ⟨m, outcome, b', -, heq, hreceipt⟩
    · rw [heq] at heard
      cases heard
    · rw [heq]
      exact h.setBus hb b' (Nat.le_of_eq (by rw [hreceipt.time_eq]))
  | left j text c b i notices hc bound hb heard =>
    simp only [sentTo_append, sentTo_notes, sentTo_send, sentTo_close, sentTo_nil, List.nil_append]
    by_cases hj : j = k
    · subst hj
      obtain ⟨us, rfl, hincreasing, -⟩ := h.of_bound hc bound hb
      rw [if_pos rfl]
      exact .gone _ herase (hs.fresh hc) (.left i us hincreasing)
    · rw [if_neg hj, List.append_nil]
      exact h.retired hj hb i
  | expelled j e c b i notices about hc bound hb =>
    simp only [sentTo_append, sentTo_notes, sentTo_close, sentTo_nil, List.append_nil]
    by_cases hj : j = k
    · subst hj
      exact h.close herase (hs.fresh hc)
    · exact h.retired hj hb i
  | stepped n b ds notices hb unfinished advanced =>
    rw [sentTo_append, sentTo_notes, List.nil_append]
    exact h.step hs hb advanced
  | ended n b b' notices closes hb live why cut =>
    rw [sentTo_append, sentTo_notes, sentTo_closes, List.nil_append, List.append_nil]
    have hget := s.get?_ended n b' k
    have hkept : b'.tearDown.2.1.time = b.time := by
      rw [b'.time_tearDown]
      rcases why with ⟨-, rfl⟩ | ⟨-, rfl, cause, hcause⟩
      · rfl
      · exact time_failed hcause
    have htime := time_setBus hb b'.tearDown.2.1 (Nat.le_of_eq (by rw [hkept]))
    cases hc : s.connections.get? k with
    | none => exact h.frame (by rw [hget, hc]; rfl) (Nat.le_refl _) htime
    | some c =>
      by_cases hn : c.bus = n
      · exact h.close (by rw [hget, hc]; simp [Option.filter_some, hn]) (hs.fresh hc)
      · exact h.frame (by rw [hget, hc]; simp [Option.filter_some, hn]) (Nat.le_refl _) htime

end Ledger

theorem Reaches.ledger {start s : Server} {actions : List ServerAction} (h : Reaches start s actions)
    (hs : start.Consistent) (hnone : start.connections = .empty) (k : ConnectionKey) :
    Ledger s k (sentTo k actions) := by
  induction h with
  | start =>
    refine .silent fun c hc => ?_
    rw [hnone] at hc
    cases hc
  | move h m ih =>
    have hconsistent := h.consistent hs
    rw [sentTo_append]
    exact ih.moved hconsistent (hconsistent.moved m)

/-! ### What a message answers -/

/-- What a message to connection `k` answers, which server `s` sends in a step. -/
inductive Answers (s : Server) (k : ConnectionKey) : Step → Message → Prop where
  /-- The bus accepted a handshake, and its slot `i` now holds the connection. -/
  | welcome (text name : String) (options : Options) (c : Connection) (i : Ident)
      (decoded : Message.decode text = .ok (.hello name options))
      (hc : s.connections.get? k = some c) (free : c.ident = none)
      (bound : (s.handle (.line k text)).1.Holds c.bus i k) : Answers s k (.event (.line k text)) (.youAre i)
  /-- The bus rejected a handshake that could be read. -/
  | refusal (text name : String) (options : Options) (c : Connection) (b : Bus) (error : ParticipantError)
      (decoded : Message.decode text = .ok (.hello name options))
      (hc : s.connections.get? k = some c) (free : c.ident = none) (hb : s.buses[c.bus]? = some b)
      (rejected : (b.handshake k name options).1 = .error error) : Answers s k (.event (.line k text)) .nak
  /-- The participant itself sent FINISH. -/
  | farewell (text : String) (c : Connection) (i : Ident) (decoded : Message.decode text = .ok .finish)
      (hc : s.connections.get? k = some c) (bound : c.ident = some i) :
      Answers s k (.event (.line k text)) .finish
  /-- A bus took a step. -/
  | stepped (time : Time) (signals : Signals) : Answers s k .service (.deliver time signals)

theorem decode_of_bus_decode {b : Bus} {i : Ident} {text : String} {m : Message} (h : b.decode i text = .ok m) :
    Message.decode text = .ok m := by
  unfold Bus.decode at h
  cases hm : Message.decode text with
  | error cause => rw [hm] at h; cases h
  | ok m' =>
    rw [hm] at h
    change b.checkOffer i m' = .ok m at h
    unfold Bus.checkOffer at h
    split at h
    · split at h
      · cases h
      · exact h
    · exact h

theorem deliver_of_mem_partway {s : Server} (hs : s.Consistent) (n : Nat) {k : ConnectionKey} {m : Message}
    (h : .send k m ∈ (s.partway n).2) : ∃ time signals, m = .deliver time signals := by
  induction n with
  | zero => cases h
  | succ n ih =>
    rw [partway_succ] at h
    rcases List.mem_append.1 h with h | h
    · exact ih h
    · have hmoved := ((Reaches.partway s n).consistent hs).moved_serviceBus n
      generalize (serviceBus n (s.partway n).1).1 = s' at hmoved
      change .send k m ∈ (serviceBus n (s.partway n).1).2 at h
      generalize (serviceBus n (s.partway n).1).2 = actions at hmoved h
      cases hmoved with
      | ignored | waiting => cases h
      | stepped _ b ds notices hb unfinished advanced =>
        rw [(Bus.stepsFrom_of_stepped advanced).outgoing] at h
        simp only [List.mem_append, List.mem_map, reduceCtorEq, and_false, exists_false, false_or] at h
        obtain ⟨d, ⟨a, -, rfl⟩, heq⟩ := h
        cases heq
        exact ⟨_, _, rfl⟩
      | ended => simp at h

theorem Consistent.answers {s : Server} (hs : s.Consistent) {step : Step} {k : ConnectionKey} {m : Message}
    (h : .send k m ∈ (s.perform step).2) : s.Answers k step m := by
  cases step with
  | service =>
    obtain ⟨time, signals, rfl⟩ := deliver_of_mem_partway hs _ h
    exact .stepped time signals
  | event e =>
    have hmoved := hs.moved_handle e
    have hafter : (s.handle e).1.Consistent := hs.moved_to hmoved
    change .send k m ∈ (s.handle e).2 at h
    generalize hs' : (s.handle e).1 = s' at hmoved hafter
    generalize (s.handle e).2 = actions at hmoved h
    cases hmoved with
    | ignored | opened => cases h
    | admitted j text c b name options slot widths notices hc free hb decoded admits =>
      obtain ⟨rfl, rfl⟩ : k = j ∧ m = .youAre slot.ident := by simpa using h
      have hget : (s.admitted k c.bus b slot.ident options widths).connections.get? k =
          some { c with ident := some slot.ident } := by
        rw [get?_admitted, if_pos rfl, hc]
        rfl
      have hheld := hafter.bound hget rfl
      exact .welcome text name options c slot.ident decoded hc free (by rw [hs']; exact hheld)
    | refused j text c b name options reason notices hc free hb decoded admits =>
      obtain ⟨rfl, rfl⟩ : k = j ∧ m = .nak := by simpa using h
      refine .refusal text name options c b (.rejected b.name name reason) decoded hc free hb ?_
      rw [Bus.handshake, admits]
    | left j text c b i notices hc bound hb heard =>
      obtain ⟨rfl, rfl⟩ : k = j ∧ m = .finish := by simpa using h
      obtain ⟨slot, hslot, -⟩ := hs.slot_of_bound hc bound hb
      rcases Bus.hear_spec hslot text with ⟨cause, -, heq⟩ | ⟨m, outcome, b', hdecoded, heq, hreceipt⟩
      · rw [heq] at heard
        cases heard
      · rw [heq] at heard
        cases heard
        cases hreceipt with
        | left => exact .farewell text c i (decode_of_bus_decode hdecoded) hc bound
    | dropped | offered | expelled => simp at h

/-- **The transcript of a connection.** Whatever happens to a server, the messages to one connection are nothing, or a
NAK, or YOU-ARE, UNTILs of increasing time and possibly a FINISH, and each of them has its reason. -/
theorem transcript_of_run {configs : List BusConfig} {limit : Nat} {start : Server} {notices : List ServerNotice}
    (h : ofConfigs configs limit = (some start, notices)) (steps : List Step) (k : ConnectionKey) :
    Transcript (sentTo k (start.run steps).2) ∧
    ∀ step m, .send k m ∈ ((start.run steps).1.perform step).2 → (start.run steps).1.Answers k step m := by
  have hstart := consistent_ofConfigs h
  have hreaches := Reaches.run start steps
  exact ⟨(hreaches.ledger hstart (ofConfigs_spec h).1 k).transcript,
    fun step m hm => (hreaches.consistent hstart).answers hm⟩

/-- The host is welcomed, leaves, and is sent nothing more. -/
theorem transcript_of_host :
    sentTo 0 (idleServer.run [.event (.accepted 0 "peer"), .event (.line 0 "HELLO host"), .event (.line 0 "FINISH"),
      .event (.line 0 "FINISH"), .service]).2 = [.youAre 0, .finish] ∧ Transcript [.youAre 0, .finish] := by
  have hsent : sentTo 0 (idleServer.run [.event (.accepted 0 "peer"), .event (.line 0 "HELLO host"),
      .event (.line 0 "FINISH"), .event (.line 0 "FINISH"), .service]).2 = [.youAre 0, .finish] := by cbv
  exact ⟨hsent, hsent ▸ (transcript_of_run ofConfigs_hostAndCard _ 0).1⟩

end Server

end Lockstep
