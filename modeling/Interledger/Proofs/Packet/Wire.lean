import Interledger.Packet.Wire
import Interledger.Proofs.Packet.Record
import Interledger.Proofs.Sample
import Mathlib.Algebra.Group.Nat.Defs

/-! Packets on the wire. Whatever well-formed fields stand before, between and behind those of an
encoded packet, the same packet is read: foreign fields and whole groups are skipped, and of a
field that occurs several times the last one counts. -/

namespace Interledger

/-! ### Text -/

theorem Utf8.isValid_of_forall_lt {s : Bytes} (h : ∀ b ∈ s, b < 128) : Utf8.isValid s := by
  have hbetween : ∀ s : Bytes, (∀ b ∈ s, b < 128) → State.between.accepts s = true := by
    intro s
    induction s with
    | nil => exact fun _ => rfl
    | cons b s ih =>
      intro hs
      have hb : b ≤ 0x7F := by
        have hlt := hs b (by simp)
        rw [UInt8.le_iff_toNat_le]
        rw [UInt8.lt_iff_toNat_lt] at hlt
        exact Nat.le_of_lt_succ hlt
      have hnext : State.between.next b = some .between := if_pos hb
      rw [State.accepts, hnext]
      exact ih fun c hc => hs c (by simp [hc])
  exact hbetween s h

namespace Packet.Wire

/-! ### Numbers -/

/-- The bytes of a number in groups of seven bits, the low ones first, each marked but the last. -/
inductive IsVarint : Bytes → Nat → Prop
  | last {b : UInt8} (hb : b < 128) : IsVarint [b] b.toNat
  | more {b : UInt8} {s : Bytes} {n : Nat} (hb : ¬b < 128) (hs : IsVarint s n) :
    IsVarint (b :: s) (b.toNat - 128 + 128 * n)

theorem readVarint_append {v : Bytes} {n limit : Nat} (hv : IsVarint v n) (hlimit : v.length ≤ limit)
    (r : Bytes) : readVarint limit (v ++ r) = some (n, r) := by
  induction hv generalizing limit with
  | last hb =>
    obtain ⟨limit, rfl⟩ := Nat.exists_eq_add_of_lt hlimit
    rw [List.singleton_append, readVarint, if_pos hb]
  | more hb _ ih =>
    obtain ⟨limit, rfl⟩ := Nat.exists_eq_add_of_lt (Nat.lt_of_lt_of_le (Nat.zero_lt_succ _) hlimit)
    rw [List.cons_append, readVarint, if_neg hb, ih (by simpa using hlimit)]
    rfl

theorem isVarint_varint (n : Nat) : IsVarint (varint n) n := by
  induction n using Nat.strongRecOn with
  | ind n ih =>
    rw [varint]
    split
    next h =>
      have hn : (UInt8.ofNat n).toNat = n := by
        rw [UInt8.toNat_ofNat']
        omega
      have hlast : IsVarint [UInt8.ofNat n] (UInt8.ofNat n).toNat :=
        .last (UInt8.lt_iff_toNat_lt.2 (by rw [hn]; exact h))
      rwa [hn] at hlast
    next h =>
      have hb : (UInt8.ofNat (128 + n % 128)).toNat = 128 + n % 128 := by
        rw [UInt8.toNat_ofNat']
        omega
      have hmore : IsVarint (UInt8.ofNat (128 + n % 128) :: varint (n / 128))
          ((UInt8.ofNat (128 + n % 128)).toNat - 128 + 128 * (n / 128)) :=
        .more (by rw [UInt8.lt_iff_toNat_lt, hb]; exact Nat.not_lt.2 (Nat.le_add_right ..))
          (ih _ (by omega))
      have hn : 128 + n % 128 - 128 + 128 * (n / 128) = n := by omega
      rwa [hb, hn] at hmore

theorem length_varint_le {n k : Nat} (hn : n < 128 ^ (k + 1)) : (varint n).length ≤ k + 1 := by
  induction k generalizing n with
  | zero =>
    rw [varint, if_pos (by omega)]
    exact Nat.le_refl 1
  | succ k ih =>
    rw [varint]
    split
    · exact Nat.le_add_left ..
    · exact Nat.succ_le_succ (ih (Nat.div_lt_of_lt_mul (by rwa [Nat.pow_succ'] at hn)))

/-! ### Single fields -/

theorem readBytes_append (b r : Bytes) : readBytes b.length (b ++ r) = some (b, r) := by
  rw [readBytes, if_pos (by simp), List.take_left, List.drop_left]

/-- The tag of a field, not necessarily of minimal length. -/
structure IsTag (number wire : Nat) (t : Bytes) : Prop where
  number_pos : 0 < number
  number_lt : number < 2 ^ 29
  wire_lt : wire < 8
  isVarint : IsVarint t (8 * number + wire)
  length_le : t.length ≤ 5

/-- The length of a block, and the block. -/
inductive IsBlock (block : Bytes) : Bytes → Prop
  | mk {l : Bytes} (hl : IsVarint l block.length) (hlimit : l.length ≤ 5) : IsBlock block (l ++ block)

/-- The payload of a wire type without parts: a number, or a fixed count of bytes. -/
inductive IsScalar : Nat → Bytes → Prop
  | varint {v : Bytes} {n : Nat} (hv : IsVarint v n) (hlimit : v.length ≤ 10) : IsScalar 0 v
  | fixed64 {b : Bytes} (hb : b.length = 8) : IsScalar 1 b
  | fixed32 {b : Bytes} (hb : b.length = 4) : IsScalar 5 b

theorem IsTag.readField {number wire : Nat} {t : Bytes} (ht : IsTag number wire t) (s : Bytes) :
    readField (t ++ s) = (readPayload wire s).map fun p => (number, p) := by
  have hnumber : (8 * number + wire) / 8 = number := by have := ht.wire_lt; omega
  have hwire : (8 * number + wire) % 8 = wire := by have := ht.wire_lt; omega
  rw [Wire.readField, readVarint_append ht.isVarint ht.length_le]
  simp only [hnumber, hwire]
  exact if_neg (Nat.ne_of_gt ht.number_pos)

theorem IsBlock.readBlock {block s : Bytes} (hs : IsBlock block s) (r : Bytes) :
    readBlock (s ++ r) = some (block, r) := by
  obtain ⟨hl, hlimit⟩ := hs
  rw [List.append_assoc, Wire.readBlock, readVarint_append hl hlimit]
  exact readBytes_append block r

theorem IsScalar.readPayload {wire : Nat} {s : Bytes} (hs : IsScalar wire s) (r : Bytes) :
    readPayload wire (s ++ r) = some (.skipped, r) := by
  cases hs with
  | varint hv hlimit =>
    rw [Wire.readPayload, readVarint_append hv hlimit]
    rfl
  | fixed64 hb =>
    rw [Wire.readPayload, ← hb, readBytes_append]
    rfl
  | fixed32 hb =>
    rw [Wire.readPayload, ← hb, readBytes_append]
    rfl

/-! ### Reading one field -/

/-- How reading goes on behind a field. -/
def readBehind (groups : List Nat) (m : Record) (number : Nat) (payload : Payload) (r : Bytes) :
    Option Record :=
  match payload, groups with
  | .skipped, groups => readFields groups m r
  | .block b, [] => (store m number b).bind fun m => readFields [] m r
  | .block _, g :: groups => readFields (g :: groups) m r
  | .opening, groups =>
    if groups.length < maxGroups then readFields (number :: groups) m r else none
  | .closing, g :: groups => if g = number then readFields groups m r else none
  | .closing, [] => none

theorem readFields_eq {groups : List Nat} {m : Record} {number : Nat} {payload : Payload}
    {s r : Bytes} (h : readField s = some (number, payload, r)) :
    readFields groups m s = readBehind groups m number payload r := by
  have hne : s ≠ [] := by
    rintro rfl
    cases h
  rw [readFields, if_neg hne]
  split
  next hnone =>
    rw [h] at hnone
    cases hnone
  next hsome =>
    rw [h] at hsome
    cases hsome
    cases payload with
    | skipped | opening => rfl
    | closing => cases groups <;> rfl
    | block b =>
      cases groups with
      | nil =>
        simp only [readBehind]
        cases store m number b <;> rfl
      | cons g groups => rfl

section
variable {number : Nat} {t s block : Bytes} (groups : List Nat) (m : Record) (r : Bytes)

theorem readFields_scalar {wire : Nat} (ht : IsTag number wire t) (hs : IsScalar wire s) :
    readFields groups m (t ++ s ++ r) = readFields groups m r := by
  have hfield : readField (t ++ s ++ r) = some (number, .skipped, r) := by
    rw [List.append_assoc, ht.readField, hs.readPayload]
    rfl
  exact readFields_eq hfield

theorem readFields_block (ht : IsTag number 2 t) (hs : IsBlock block s) :
    readFields groups m (t ++ s ++ r) = readBehind groups m number (.block block) r := by
  have hfield : readField (t ++ s ++ r) = some (number, .block block, r) := by
    rw [List.append_assoc, ht.readField, readPayload, hs.readBlock]
    rfl
  exact readFields_eq hfield

theorem readFields_opening (ht : IsTag number 3 t) (hlimit : groups.length < maxGroups) :
    readFields groups m (t ++ r) = readFields (number :: groups) m r :=
  (readFields_eq (ht.readField r)).trans (if_pos hlimit)

theorem readFields_closing (ht : IsTag number 4 t) :
    readFields (number :: groups) m (t ++ r) = readFields groups m r :=
  (readFields_eq (ht.readField r)).trans (if_pos rfl)

end

/-! ### Foreign fields -/

/-- Whole fields that carry nothing of a packet, with at most so many groups inside each other.
Inside of a group every field is foreign, otherwise a block is one by its number. -/
inductive Foreign : Bool → Nat → Bytes → Prop
  | nil {nested : Bool} {depth : Nat} : Foreign nested depth []
  | scalar {nested : Bool} {depth number wire : Nat} {t p s : Bytes} (ht : IsTag number wire t)
      (hp : IsScalar wire p) (hs : Foreign nested depth s) : Foreign nested depth (t ++ p ++ s)
  | block {nested : Bool} {depth number : Nat} {t block p s : Bytes} (ht : IsTag number 2 t)
      (hp : IsBlock block p) (hnumber : nested ∨ 3 < number) (hs : Foreign nested depth s) :
    Foreign nested depth (t ++ p ++ s)
  | group {nested : Bool} {depth number : Nat} {t t' inner s : Bytes} (ht : IsTag number 3 t)
      (hinner : Foreign true depth inner) (ht' : IsTag number 4 t')
      (hs : Foreign nested (depth + 1) s) : Foreign nested (depth + 1) (t ++ (inner ++ (t' ++ s)))

theorem readBehind_foreign {groups : List Nat} {number : Nat} (h : groups ≠ [] ∨ 3 < number)
    (m : Record) (block r : Bytes) :
    readBehind groups m number (.block block) r = readFields groups m r := by
  cases groups with
  | cons g groups => rfl
  | nil =>
    have hnumber := h.resolve_left fun hne => hne rfl
    have hstore : store m number block = some m := by
      unfold store
      split
      · omega
      · omega
      · omega
      · rfl
    simp only [readBehind, hstore, Option.bind_some]

theorem readFields_foreign {nested : Bool} {depth : Nat} {f : Bytes} (hf : Foreign nested depth f)
    {groups : List Nat} (hnested : nested → groups ≠ []) (hdepth : groups.length + depth ≤ maxGroups)
    (m : Record) (r : Bytes) : readFields groups m (f ++ r) = readFields groups m r := by
  induction hf generalizing groups r with
  | nil => rfl
  | scalar ht hp _ ih => rw [List.append_assoc, readFields_scalar _ _ _ ht hp, ih hnested hdepth]
  | block ht hp hnumber _ ih =>
    rw [List.append_assoc, readFields_block _ _ _ ht hp,
      readBehind_foreign (hnumber.imp_left hnested), ih hnested hdepth]
  | group ht _ ht' _ ihinner ih =>
    -- The group's number stands in front of those outside while its fields are read.
    rw [List.append_assoc, readFields_opening _ _ _ ht (by omega), List.append_assoc,
      ihinner (fun _ => by simp) (by simp only [List.length_cons]; omega), List.append_assoc,
      readFields_closing _ _ _ ht', ih hnested hdepth]

/-! ### The last occurrence counts -/

/-- A record with the block of one field in place. -/
def put (m : Record) (number : Nat) (block : Bytes) : Record :=
  match number with
  | 1 => { m with account := block }
  | 2 => { m with amount := block }
  | 3 => { m with data := block }
  | _ => m

def putAll (m : Record) (fs : List (Nat × Bytes)) : Record := fs.foldl (fun m f => put m f.1 f.2) m

/-- Whether a block may stand in a field: texts are well-formed UTF-8. -/
def Fits (number : Nat) (block : Bytes) : Prop := number = 1 ∨ number = 2 → Utf8.isValid block

theorem store_eq_put {number : Nat} {block : Bytes} (h : Fits number block) (m : Record) :
    store m number block = some (put m number block) := by
  match number with
  | 1 => exact if_pos (h (.inl rfl))
  | 2 => exact if_pos (h (.inr rfl))
  | 0 | 3 | _ + 4 => rfl

theorem put_put (m : Record) (number : Nat) (b c : Bytes) :
    put (put m number b) number c = put m number c := by
  match number with
  | 0 | 1 | 2 | 3 | _ + 4 => rfl

theorem put_comm {i j : Nat} (h : i ≠ j) (m : Record) (b c : Bytes) :
    put (put m i b) j c = put (put m j c) i b := by
  match i, j with
  | 1, 1 | 2, 2 | 3, 3 => exact absurd rfl h
  | 0, _ | _ + 4, _ | 1, 0 | 2, 0 | 3, 0 | 1, _ + 4 | 2, _ + 4 | 3, _ + 4 => rfl
  | 1, 2 | 1, 3 | 2, 1 | 2, 3 | 3, 1 | 3, 2 => rfl

/-- A field that comes again later is of no account. -/
theorem putAll_put {fs : List (Nat × Bytes)} {number : Nat} (h : number ∈ fs.map (·.1))
    (m : Record) (block : Bytes) : putAll (put m number block) fs = putAll m fs := by
  induction fs generalizing m with
  | nil => cases h
  | cons f fs ih =>
    show putAll (put (put m number block) f.1 f.2) fs = putAll (put m f.1 f.2) fs
    by_cases hf : number = f.1
    · rw [hf, put_put]
    · rw [put_comm hf]
      exact ih (by simpa [hf] using h) _

/-! ### Packets among other fields -/

/-- The fields that a record is written with: those that are not empty. -/
def written (m : Record) : List (Nat × Bytes) :=
  [(1, m.account), (2, m.amount), (3, m.data)].filter (·.2 ≠ [])

/-- Bytes that carry some fields, each as it is written, in order. Foreign fields stand anywhere
around them, and in front of a field stand earlier occurrences of its number. -/
inductive Carries : List (Nat × Bytes) → Bytes → Prop
  | nil : Carries [] []
  | foreign {fs : List (Nat × Bytes)} {f s : Bytes} (hf : Foreign false maxGroups f)
      (hs : Carries fs s) : Carries fs (f ++ s)
  | earlier {fs : List (Nat × Bytes)} {number : Nat} {t block p s : Bytes} (ht : IsTag number 2 t)
      (hp : IsBlock block p) (hfits : Fits number block) (hlater : number ∈ fs.map (·.1))
      (hs : Carries fs s) : Carries fs (t ++ p ++ s)
  | own {fs : List (Nat × Bytes)} {number : Nat} {block s : Bytes} (hs : Carries fs s) :
    Carries ((number, block) :: fs) (field number block ++ s)

theorem isTag_varint {number : Nat} (hpos : 0 < number) (hle : number ≤ 3) :
    IsTag number 2 (varint (8 * number + 2)) where
  number_pos := hpos
  number_lt := Nat.lt_of_le_of_lt hle (by decide)
  wire_lt := by decide
  isVarint := isVarint_varint _
  length_le := length_varint_le (k := 4) (by omega)

theorem isBlock_varint {block : Bytes} (h : block.length < 2 ^ 31) :
    IsBlock block (varint block.length ++ block) :=
  .mk (isVarint_varint _) (length_varint_le (k := 4) (by omega))

/-- A field of a packet. -/
structure IsOwn (f : Nat × Bytes) : Prop where
  pos : 0 < f.1
  le : f.1 ≤ 3
  ne_nil : f.2 ≠ []
  fits : Fits f.1 f.2

theorem length_field (number : Nat) (block : Bytes) : block.length ≤ (field number block).length := by
  unfold field
  split
  next h => simp [h]
  · simp only [List.length_append]
    omega

/-- Of bytes that carry fields, exactly these are read. -/
theorem Carries.readFields {fs : List (Nat × Bytes)} {s : Bytes} (hs : Carries fs s)
    (hown : ∀ f ∈ fs, IsOwn f) (hlength : s.length < 2 ^ 31) (m : Record) :
    readFields [] m s = some (putAll m fs) := by
  induction hs generalizing m with
  | nil =>
    rw [Wire.readFields, if_pos rfl, if_pos rfl]
    rfl
  | foreign hf _ ih =>
    rw [List.length_append] at hlength
    rw [readFields_foreign hf nofun (Nat.le_of_eq (Nat.zero_add _)), ih hown (by omega)]
  | earlier ht hp hfits hlater _ ih =>
    simp only [List.length_append] at hlength
    rw [readFields_block _ _ _ ht hp, readBehind, store_eq_put hfits, Option.bind_some,
      ih hown (by omega), putAll_put hlater]
  | @own fs number block s _ ih =>
    obtain ⟨hpos, hle, hne, hfits⟩ := hown (number, block) (by simp)
    have hfield := length_field number block
    rw [List.length_append] at hlength
    rw [field, if_neg hne, List.append_assoc (varint _),
      readFields_block _ _ _ (isTag_varint hpos hle) (isBlock_varint (by omega)), readBehind,
      store_eq_put hfits, Option.bind_some, ih (fun f hf => hown f (by simp [hf])) (by omega)]
    rfl

theorem putAll_written (m : Record) : putAll .empty (written m) = m := by
  obtain ⟨account, amount, data⟩ := m
  by_cases ha : account = [] <;> by_cases hn : amount = [] <;> by_cases hd : data = [] <;>
    simp [putAll, written, put, Record.empty, ha, hn, hd]

/-- Without anything around them, the fields are those of the record as it is written. -/
theorem carries_write (m : Record) : Carries (written m) (write m) := by
  have hfield : ∀ (number : Nat) (block : Bytes) {s : Bytes} {fs : List (Nat × Bytes)},
      Carries fs s →
      Carries ([(number, block)].filter (·.2 ≠ []) ++ fs) (field number block ++ s) := by
    intro number block s fs hs
    by_cases hb : block = []
    · simpa [hb, field] using hs
    · simpa [hb] using Carries.own hs
  have hall := hfield 1 m.account <| hfield 2 m.amount <| hfield 3 m.data .nil
  rw [List.append_nil, List.append_nil, ← List.append_assoc, ← List.filter_append,
    ← List.filter_append, ← List.append_assoc] at hall
  exact hall

theorem isValid_account (a : Address) : Utf8.isValid a.text := by
  refine Utf8.isValid_of_forall_lt fun b hb => ?_
  rcases Address.mem_text hb with rfl | hseg
  · decide
  · simp only [Address.isSegmentByte, Bool.or_eq_true, Bool.and_eq_true, decide_eq_true_eq,
      UInt8.le_iff_toNat_le, UInt8.toNat_ofNat, ← UInt8.toNat_inj] at hseg
    rw [UInt8.lt_iff_toNat_lt]
    show b.toNat < 128
    omega

theorem isValid_amount {t : Bytes} (ht : Decimal.IsCanonical t) : Utf8.isValid t := by
  refine Utf8.isValid_of_forall_lt fun b hb => ?_
  have hdigit := ht.isDigit b hb
  simp only [Decimal.isDigit, Bool.and_eq_true, decide_eq_true_eq, UInt8.le_iff_toNat_le,
    UInt8.toNat_ofNat] at hdigit
  rw [UInt8.lt_iff_toNat_lt]
  show b.toNat < 128
  omega

theorem isOwn_written (p : Packet) : ∀ f ∈ written p.toRecord, IsOwn f := by
  intro f hf
  obtain ⟨hmem, hne⟩ := List.mem_filter.1 hf
  simp only [List.mem_cons, List.not_mem_nil, or_false] at hmem
  rw [decide_eq_true_eq] at hne
  rcases hmem with rfl | rfl | rfl
  · exact ⟨by simp, by simp, hne, fun _ => isValid_account p.account⟩
  · exact ⟨by simp, by simp, hne, fun _ => isValid_amount (isCanonical_toRecord p).amount⟩
  · exact ⟨by simp, by simp, hne, fun h => by simp at h⟩

theorem decode_of_carries {p : Packet} {s : Bytes} (hs : Carries (written p.toRecord) s)
    (hlength : s.length < 2 ^ 31) : decode s = .ok p := by
  have hread : read s = some p.toRecord := by
    rw [read, hs.readFields (isOwn_written p) hlength, putAll_written]
  rw [decode, hread]
  exact ofRecord_toRecord p

/-- A packet is read back from its encoding, and from any bytes that carry the fields of its
encoding among foreign ones and behind earlier occurrences of the same numbers. -/
theorem decode_among_other_fields (p : Packet) :
    Carries (written p.toRecord) (encode p) ∧
    ((encode p).length < 2 ^ 31 → decode (encode p) = .ok p) ∧
    ∀ s, Carries (written p.toRecord) s → s.length < 2 ^ 31 → decode s = .ok p :=
  ⟨carries_write _, decode_of_carries (carries_write _), fun _ => decode_of_carries⟩

/-- A group with a field 1 inside, an earlier field 1, a number in a field 1 and an empty field 3
stand between the fields of a packet. -/
theorem decode_among_other_fields_grouped :
    let p : Packet := ⟨Ledger.Sample.bob, 30, [7], rfl, by decide⟩
    let s : Bytes := [0x2B, 0x0A, 0x01, 0xFF, 0x2C] ++ ([0x0A, 0x01, 0x78] ++
      (field 1 p.account.text ++ ([0x08, 0x96, 0x01] ++ (field 2 (Decimal.text p.amount) ++
        ([0x1A, 0x00] ++ (field 3 p.data ++ []))))))
    Carries (written p.toRecord) s ∧ s.length < 2 ^ 31 ∧ decode s = .ok p := by
  intro p s
  have htag : ∀ {number wire : Nat} {b : UInt8}, b < 128 ∧ 0 < number ∧ number < 2 ^ 29 ∧
      wire < 8 ∧ b.toNat = 8 * number + wire → IsTag number wire [b] :=
    fun ⟨hb, hpos, hlt, hwire, heq⟩ => ⟨hpos, hlt, hwire, heq ▸ .last hb, by simp⟩
  have hinner : IsTag 1 2 [0x0A] := htag (by decide)
  have hopening : IsTag 5 3 [0x2B] := htag (by decide)
  have hclosing : IsTag 5 4 [0x2C] := htag (by decide)
  have hgroup : Foreign false maxGroups [0x2B, 0x0A, 0x01, 0xFF, 0x2C] := by
    have hbad : IsBlock [0xFF] ([0x01] ++ [0xFF]) := .mk (.last (by decide)) (by decide)
    show Foreign false (99 + 1) _
    exact .group hopening (.block hinner hbad (.inl rfl) .nil) hclosing .nil
  have hmark : IsTag 1 0 [0x08] := htag (by decide)
  have hnumber : Foreign false maxGroups ([0x08] ++ [0x96, 0x01] ++ []) :=
    .scalar hmark (.varint (.more (by decide) (.last (by decide))) (by decide)) .nil
  have hdata : IsTag 3 2 [0x1A] := htag (by decide)
  have hwritten : written p.toRecord =
      [(1, p.account.text), (2, Decimal.text p.amount), (3, p.data)] := by decide +kernel
  have hx : IsBlock [0x78] ([0x01] ++ [0x78]) := .mk (.last (by decide)) (by decide)
  have hnil : IsBlock [] ([0x00] ++ []) := .mk (.last (by decide)) (by decide)
  have hs : Carries (written p.toRecord) s := by
    rw [hwritten]
    exact .foreign hgroup <|
      .earlier hinner hx (fun _ => by decide) (by simp) <|
      .own <| .foreign hnumber <| .own <|
      .earlier hdata hnil (fun h => by simp at h) (by simp) <|
      .own .nil
  have hlength : s.length < 2 ^ 31 := by decide +kernel
  exact ⟨hs, hlength, (decode_among_other_fields p).2.2 s hs hlength⟩

end Packet.Wire

end Interledger
