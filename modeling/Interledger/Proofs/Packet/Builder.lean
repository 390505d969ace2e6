import Interledger.Packet.Slots
import Interledger.Proofs.Amount
import Mathlib.Data.List.Induction

/-! Building a packet by any calls. A setter either refuses its argument, and then writes nothing,
or writes its own slot alone. So the slots hold what was set last, and a packet comes of them as
soon as each of the three has been set. -/

namespace Interledger.Packet

/-- The parts of a packet. -/
def parts (p : Packet) : Parts := ⟨p.account, p.amount, p.data⟩

/-- The slots of a builder. -/
def Builder.slots (b : Builder) : Slots := ⟨b.account.map (·.1), b.amount.map (·.1), b.data⟩

namespace Slots

def has (s : Slots) : PacketField → Bool
  | .account => s.account.isSome
  | .amount => s.amount.isSome
  | .data => s.data.isSome

/-- Some slots, and others where these are empty. -/
def or (s t : Slots) : Slots := ⟨s.account.or t.account, s.amount.or t.amount, s.data.or t.data⟩

end Slots

namespace Call

/-- The field that a call is for. -/
def field? : Call → Option PacketField
  | account _ => some .account
  | amount _ | amountText _ => some .amount
  | data _ | block .. => some .data
  | build => none

/-- What a call sets when it succeeds. -/
def values : Call → Slots
  | account a => ⟨some a, none, none⟩
  | amount n => ⟨none, some n, none⟩
  | amountText t => ⟨none, (Amount.parse t).toOption, none⟩
  | data s => ⟨none, none, some s⟩
  | block s size => ⟨none, none, some ((s.getD []).take size)⟩
  | build => .empty

/-- What a setter asks of its argument. -/
def IsValid : Call → Prop
  | account a => a.isPrefix = false
  | amount n => 0 ≤ n
  | amountText t => Decimal.IsCanonical t
  | data _ | build => True
  | block s size => s = none → size = 0

end Call

/-- The slots after some calls, and those of the calls that succeeded. -/
structure Draft where
  slots : Slots
  granted : List Call

namespace Draft

def next (d : Draft) (c : Call) : Draft where
  slots := (c.code.on d.slots).2
  granted := if (c.code.on d.slots).1.isOk then d.granted ++ [c] else d.granted

def after (calls : List Call) : Draft := calls.foldl next ⟨.empty, []⟩

@[simp] theorem after_concat (calls : List Call) (c : Call) :
    after (calls ++ [c]) = (after calls).next c := by
  simp [after]

end Draft

/-- What was set last of each field. -/
def latest (calls : List Call) : Slots where
  account := (calls.filterMap (·.values.account)).getLast?
  amount := (calls.filterMap (·.values.amount)).getLast?
  data := (calls.filterMap (·.values.data)).getLast?

/-! ### One call -/

namespace Slots

variable {s : Slots} {p : Parts} {e : Error}

theorem on_setAccount (a : Address) (s : Slots) : (setAccount a).on s =
    if a.isPrefix then (.error (.packetToScope a.text), s)
    else (.ok (), { s with account := some a }) := by
  unfold setAccount
  split
  · rfl
  · rfl

theorem on_setAmount (n : Int) (s : Slots) : (setAmount n).on s =
    if n < 0 then (.error .packetAmountNegative, s) else (.ok (), { s with amount := some n }) := by
  unfold setAmount
  split
  · rfl
  · rfl

theorem on_setAmountText (t : Bytes) (s : Slots) : (setAmountText t).on s =
    match Amount.parse t with
    | .error e => (.error e, s)
    | .ok n => (setAmount n).on s := by
  unfold setAmountText
  cases Amount.parse t with
  | error e => rfl
  | ok n => rfl

theorem on_setBlock (block : Option Bytes) (size : Nat) (s : Slots) : (setBlock block size).on s =
    if block = none ∧ 0 < size then (.error .packetNoData, s)
    else (.ok (), { s with data := some ((block.getD []).take size) }) := by
  have htake : (if size = 0 then [] else (block.getD []).take size) = (block.getD []).take size := by
    split
    next hsize =>
      rw [hsize]
      rfl
    · rfl
  unfold setBlock
  rw [htake]
  split
  · rfl
  · rfl

/-- Building reads the slots only. -/
theorem on_build_state (s : Slots) : (build.on s).2 = s := by
  rcases s with ⟨_ | a, _ | n, _ | d⟩ <;> rfl

theorem on_build_eq_ok_iff :
    (build.on s).1 = .ok p ↔ s = ⟨some p.account, some p.amount, some p.data⟩ := by
  rcases s with ⟨_ | a, _ | n, _ | d⟩
  case some.some.some =>
    show Except.ok (Parts.mk a n d) = _ ↔ _
    simp [Parts.ext_iff]
  all_goals exact iff_of_false nofun nofun

theorem exists_on_build_iff : (∃ p, (build.on s).1 = .ok p) ↔ ∀ f, s.has f := by
  constructor
  · rintro ⟨p, hp⟩ f
    rw [on_build_eq_ok_iff.1 hp]
    cases f <;> rfl
  · intro h
    obtain ⟨a, ha⟩ := Option.isSome_iff_exists.1 (h .account)
    obtain ⟨n, hn⟩ := Option.isSome_iff_exists.1 (h .amount)
    obtain ⟨d, hd⟩ := Option.isSome_iff_exists.1 (h .data)
    exact ⟨⟨a, n, d⟩, on_build_eq_ok_iff.2 (by rw [← ha, ← hn, ← hd])⟩

/-- What is missing first is what building fails for. -/
theorem on_build_eq_error_iff : (build.on s).1 = .error e ↔
    ∃ f, [PacketField.account, .amount, .data].find? (fun f => !s.has f) = some f ∧
      e = .packetLacks f := by
  rcases s with ⟨_ | a, _ | n, _ | d⟩
  case some.some.some => exact iff_of_false nofun fun ⟨f, hf, _⟩ => nomatch hf
  all_goals
    constructor
    · intro h
      exact ⟨_, rfl, (Except.error.inj h).symm⟩
    · rintro ⟨f, hf, rfl⟩
      cases hf
      rfl

theorem has_or (s t : Slots) (f : PacketField) : (s.or t).has f = (s.has f || t.has f) := by
  cases f with
  | account => exact Option.isSome_or
  | amount => exact Option.isSome_or
  | data => exact Option.isSome_or

end Slots

namespace Call

variable {c : Call} {s : Slots} {e : Error} {f : PacketField}

/-- A call that is accepted sets the field that it is for, and no other. -/
theorem IsValid.has_values_iff (hc : c.IsValid) (f : PacketField) :
    c.values.has f ↔ c.field? = some f := by
  have htext : ∀ t, Decimal.IsCanonical t → ((Amount.parse t).toOption).isSome := by
    intro t ht
    rw [Amount.parse_eq_ok_iff.2 ⟨ht, rfl⟩]
    rfl
  cases c with
  | amountText t => cases f <;> simp [values, Slots.has, field?, htext t hc]
  | _ => cases f <;> simp [values, Slots.has, field?, Slots.empty]

/-- What a setter comes to: its values over those that were there, or a refusal. -/
inductive Sets (c : Call) (s : Slots) : Except Error Unit × Slots → Prop
  | granted (hvalid : c.IsValid) : Sets c s (.ok (), c.values.or s)
  | refused (e : Error) (hinvalid : ¬c.IsValid) (hkind : e.kind = .argument) :
      Sets c s (.error e, s)

theorem sets_of_ne_build (hc : c ≠ .build) (s : Slots) : c.Sets s (c.code.on s) := by
  have hamount : ∀ c : Call, ∀ n, (c.IsValid ↔ 0 ≤ n) → c.values = ⟨none, some n, none⟩ →
      c.Sets s ((Slots.setAmount n).on s) := by
    intro c n hvalid hvalues
    rw [Slots.on_setAmount]
    split
    next hn => exact .refused _ (fun h => absurd (hvalid.1 h) (Int.not_le.2 hn)) rfl
    next hn =>
      have hset := Sets.granted (s := s) (hvalid.2 (Int.not_lt.1 hn))
      rwa [hvalues] at hset
  cases c with
  | account a =>
    rw [code, Slots.on_setAccount]
    split
    next ha => exact .refused _ (fun h => Bool.false_ne_true (h.symm.trans ha)) rfl
    next ha => exact .granted (c := account a) (Bool.eq_false_iff.2 ha)
  | amount n => exact hamount _ n Iff.rfl rfl
  | amountText t =>
    rw [code, Slots.on_setAmountText]
    split
    next e he =>
      refine .refused e (fun h => ?_) (Amount.kind_of_parse he)
      rw [Amount.parse_eq_ok_iff.2 ⟨h, rfl⟩] at he
      cases he
    next n hn =>
      have hcanonical := (Amount.parse_eq_ok_iff.1 hn).1
      exact hamount _ n (iff_of_true hcanonical (Amount.nonneg_of_parse hn)) (by rw [values, hn]; rfl)
  | data d => exact .granted trivial
  | block b size =>
    rw [code, Slots.on_setBlock]
    split
    next h => exact .refused _ (fun hb => absurd (hb h.1) (Nat.ne_of_gt h.2)) rfl
    next h => exact .granted (c := block b size) fun hb => Nat.eq_zero_of_not_pos fun hsize => h ⟨hb, hsize⟩
  | build => exact absurd rfl hc

theorem on_build (s : Slots) :
    build.code.on s = ((Slots.build.on s).1.map fun _ => (), s) := by
  rcases s with ⟨_ | a, _ | n, _ | d⟩ <;> rfl

/-- A call that succeeds writes its values over the slots, and one that fails writes nothing. -/
theorem on_cases (c : Call) (s : Slots) :
    c.IsValid ∧ c.code.on s = (.ok (), c.values.or s) ∨ ∃ e, c.code.on s = (.error e, s) := by
  by_cases hc : c = .build
  · subst hc
    rw [on_build]
    cases (Slots.build.on s).1 with
    | ok p => exact .inl ⟨trivial, rfl⟩
    | error e => exact .inr ⟨e, rfl⟩
  · have hset := sets_of_ne_build hc s
    generalize c.code.on s = r at hset
    cases hset with
    | granted hvalid => exact .inl ⟨hvalid, rfl⟩
    | refused e => exact .inr ⟨e, rfl⟩

end Call

/-! ### What was set last -/

theorem latest_concat (calls : List Call) (c : Call) :
    latest (calls ++ [c]) = c.values.or (latest calls) := by
  have hlast : ∀ {α : Type} (g : Call → Option α),
      ((calls ++ [c]).filterMap g).getLast? = (g c).or (calls.filterMap g).getLast? := by
    intro α g
    rw [List.filterMap_append, List.getLast?_append]
    cases hg : g c with
    | none => simp [hg]
    | some a => simp [hg]
  rw [latest, hlast, hlast, hlast]
  rfl

theorem has_latest_iff {calls : List Call} {f : PacketField} :
    (latest calls).has f ↔ ∃ c ∈ calls, c.values.has f := by
  induction calls using List.reverseRecOn with
  | nil => cases f <;> simp [latest, Slots.has]
  | append_singleton calls c ih =>
    rw [latest_concat, Slots.has_or, Bool.or_eq_true, ih]
    simp [or_and_right, exists_or, or_comm]

/-- The slots are what the calls that succeeded have set last. -/
structure Draft.Faithful (d : Draft) : Prop where
  slots_eq : d.slots = latest d.granted
  isValid : ∀ c ∈ d.granted, c.IsValid

theorem Draft.faithful_after (calls : List Call) : (after calls).Faithful := by
  induction calls using List.reverseRecOn with
  | nil => exact ⟨rfl, by simp [after]⟩
  | append_singleton calls c ih =>
    rw [after_concat, next]
    rcases c.on_cases (after calls).slots with ⟨hvalid, hon⟩ | ⟨e, hon⟩
    · rw [hon]
      refine ⟨?_, ?_⟩
      · show _ = latest (_ ++ [c])
        rw [latest_concat, ih.slots_eq]
      · intro c' hc'
        rcases List.mem_append.1 hc' with hc' | hc'
        · exact ih.isValid c' hc'
        · rwa [List.mem_singleton.1 hc']
    · rw [hon]
      exact ih

theorem Draft.Faithful.has_iff {d : Draft} (hd : d.Faithful) (f : PacketField) :
    d.slots.has f ↔ ∃ c ∈ d.granted, c.field? = some f := by
  rw [hd.slots_eq, has_latest_iff]
  exact exists_congr fun c => and_congr_right fun hc => (hd.isValid c hc).has_values_iff f

/-! ### Builders -/

namespace Builder

/-- A builder after a call, which it forgets when the call fails. -/
def next (b : Builder) (c : Call) : Builder := (c.setting b).toOption.getD b

def after (calls : List Call) : Builder := calls.foldl next .empty

theorem on_build_slots (b : Builder) : (Slots.build.on b.slots).1 = b.build.map parts := by
  rcases b with ⟨_ | a, _ | n, _ | d⟩ <;> rfl

theorem on_setAmount_slots (b : Builder) (n : Int) : (Slots.setAmount n).on b.slots =
    ((b.setAmount n).map fun _ => (), ((b.setAmount n).toOption.getD b).slots) := by
  rw [Slots.on_setAmount]
  by_cases hn : 0 ≤ n
  · have hset : b.setAmount n = .ok { b with amount := some ⟨n, hn⟩ } := dif_pos hn
    rw [hset, if_neg (Int.not_lt.2 hn)]
    rfl
  · have hset : b.setAmount n = .error .packetAmountNegative := dif_neg hn
    rw [hset, if_pos (Int.not_le.1 hn)]
    rfl

/-- A call comes to the same on a builder and on its slots. -/
theorem on_slots (b : Builder) (c : Call) :
    c.code.on b.slots = ((c.setting b).map fun _ => (), (b.next c).slots) := by
  rw [next]
  cases c with
  | account a =>
    rw [Call.code, Slots.on_setAccount, Call.setting]
    by_cases ha : a.isPrefix = false
    · have hset : b.setAccount a = .ok { b with account := some ⟨a, ha⟩ } := dif_pos ha
      rw [hset, ha]
      rfl
    · have hset : b.setAccount a = .error (.packetToScope a.text) := dif_neg ha
      rw [hset, if_pos (by simpa using ha)]
      rfl
  | amount n => exact b.on_setAmount_slots n
  | amountText t =>
    rw [Call.code, Slots.on_setAmountText, Call.setting, setAmountText]
    cases Amount.parse t with
    | error e => rfl
    | ok n => exact b.on_setAmount_slots n
  | data d => rfl
  | block block size =>
    rw [Call.code, Slots.on_setBlock, Call.setting]
    cases block with
    | some d => rfl
    | none =>
      by_cases hsize : 0 < size
      · have hset : b.setBlock none size = .error .packetNoData := if_pos hsize
        rw [hset, if_pos ⟨rfl, hsize⟩]
        rfl
      · have hset : b.setBlock none size = .ok (b.setData []) := if_neg hsize
        rw [hset, if_neg fun h => hsize h.2, Option.getD_none, List.take_nil]
        rfl
  | build =>
    rw [Call.on_build, on_build_slots, Call.setting]
    cases b.build with
    | error e => rfl
    | ok p => rfl

theorem slots_after (calls : List Call) : (after calls).slots = (Draft.after calls).slots := by
  induction calls using List.reverseRecOn with
  | nil => rfl
  | append_singleton calls c ih =>
    rw [Draft.after_concat, Draft.next, ← ih, on_slots]
    simp [after]

end Builder

theorem message_packetLacks (f : PacketField) :
    (Error.packetLacks f).message = f.text ++ " must be set" := by
  cases f <;> decide

/-- What comes of a builder has a leaf for its account and an amount that is not negative. -/
theorem Builder.of_slots {b : Builder} {p : Parts}
    (h : b.slots = ⟨some p.account, some p.amount, some p.data⟩) :
    p.account.isPrefix = false ∧ 0 ≤ p.amount := by
  obtain ⟨a, -, ha⟩ := Option.map_eq_some_iff.1 (congrArg Slots.account h)
  obtain ⟨n, -, hn⟩ := Option.map_eq_some_iff.1 (congrArg Slots.amount h)
  exact ⟨ha ▸ a.2, hn ▸ n.2⟩

/-- Of any calls on a builder, one that fails leaves all slots as they were, and a setter fails
just when its argument is not valid, as an argument. After the calls, the slots hold what was set
last among the calls that succeeded. A packet is built just when each of the three fields has been
set; it is made of what was set last, its account is a leaf and its amount is not negative.
Otherwise building fails, as incomplete, for the first missing field in order, and names it.
Building changes nothing. A builder that carries the checks in its type answers the same. -/
theorem builder_keeps_latest :
    (∀ (c : Call) s e, (c.code.on s).1 = .error e → (c.code.on s).2 = s) ∧
    (∀ c ≠ Call.build, ∀ s, ((∃ u, (c.code.on s).1 = .ok u) ↔ c.IsValid) ∧
      ∀ e, (c.code.on s).1 = .error e → e.kind = .argument) ∧
    (∀ f, (Error.packetLacks f).kind = .incompleteBuilder ∧
      (Error.packetLacks f).message = f.text ++ " must be set") ∧
    ∀ calls, let d := Draft.after calls
      d.slots = latest d.granted ∧
      ((∃ p, (Slots.build.on d.slots).1 = .ok p) ↔ ∀ f, ∃ c ∈ d.granted, c.field? = some f) ∧
      (∀ p, (Slots.build.on d.slots).1 = .ok p →
        latest d.granted = ⟨some p.account, some p.amount, some p.data⟩ ∧
        p.account.isPrefix = false ∧ 0 ≤ p.amount) ∧
      (∀ e, (Slots.build.on d.slots).1 = .error e ↔
        ∃ f, [PacketField.account, .amount, .data].find?
            (fun f => ∀ c ∈ d.granted, c.field? ≠ some f) = some f ∧ e = .packetLacks f) ∧
      (Slots.build.on d.slots).2 = d.slots ∧
      (Builder.after calls).slots = d.slots ∧
      (Builder.after calls).build.map parts = (Slots.build.on d.slots).1 ∧
      ∀ c : Call, (c.setting (Builder.after calls)).map (fun _ => ()) = (c.code.on d.slots).1 := by
  refine ⟨fun c s e he => ?_, fun c hc s => ?_, fun f => ⟨rfl, message_packetLacks f⟩,
    fun calls => ?_⟩
  · rcases c.on_cases s with ⟨-, hon⟩ | ⟨e', hon⟩
    · rw [hon] at he
      cases he
    · rw [hon]
  · have hset := Call.sets_of_ne_build hc s
    generalize c.code.on s = r at hset
    cases hset with
    | granted hvalid => exact ⟨iff_of_true ⟨(), rfl⟩ hvalid, nofun⟩
    | refused e hinvalid hkind =>
      refine ⟨iff_of_false nofun hinvalid, fun e' he => ?_⟩
      cases he
      exact hkind
  · intro d
    have hd : d.Faithful := Draft.faithful_after calls
    have hslots : (Builder.after calls).slots = d.slots := Builder.slots_after calls
    refine ⟨hd.slots_eq, ?_, fun p hp => ?_, fun e => ?_, Slots.on_build_state _, hslots, ?_,
      fun c => ?_⟩
    · rw [Slots.exists_on_build_iff]
      exact forall_congr' hd.has_iff
    · have hp := Slots.on_build_eq_ok_iff.1 hp
      exact ⟨hd.slots_eq.symm.trans hp, Builder.of_slots (hslots.trans hp)⟩
    · have hlacks : (fun f => !d.slots.has f) =
          fun f => decide (∀ c ∈ d.granted, c.field? ≠ some f) := by
        funext f
        rw [Bool.eq_iff_iff, Bool.not_eq_true', ← Bool.not_eq_true, hd.has_iff]
        simp
      rw [Slots.on_build_eq_error_iff, hlacks]
    · rw [← hslots, Builder.on_build_slots]
    · rw [← hslots, Builder.on_slots]

end Interledger.Packet
