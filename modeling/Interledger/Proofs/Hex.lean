import Interledger.Hex.Places

/-! Hexadecimal text. A text of two digits for each byte is read whatever the letter case of its
digits, no other text is, and what was read is written in lower case. So reading and writing are
inverse to each other up to letter case. Reading place by place comes to the same. -/

namespace Interledger

namespace Bytes

def lowerByte (b : UInt8) : UInt8 := if 65 ≤ b ∧ b ≤ 90 then b + 32 else b

/-- A text with small letters in the place of capital ones. -/
def lower (t : Bytes) : Bytes := t.map lowerByte

@[simp] theorem length_lower (t : Bytes) : (lower t).length = t.length := List.length_map _

/-- What can be checked of all bytes one by one. -/
theorem forall_byte {p : UInt8 → Prop} (h : ∀ i : Fin 256, p (.ofFin i)) (b : UInt8) : p b :=
  h b.toFin

end Bytes

namespace Hex

open Bytes (forall_byte lower lowerByte)

/-- The digits, in either letter case. -/
def numerals : Bytes := "0123456789abcdefABCDEF"

/-! ### Single digits -/

theorem mem_numerals_iff : ∀ b : UInt8,
    b ∈ numerals ↔ 48 ≤ b ∧ b ≤ 57 ∨ 97 ≤ b ∧ b ≤ 102 ∨ 65 ≤ b ∧ b ≤ 70 :=
  forall_byte (by decide +kernel)

theorem exists_value?_iff (b : UInt8) : (∃ v, value? b = some v) ↔ b ∈ numerals := by
  rw [mem_numerals_iff, value?]
  split
  next h => exact iff_of_true ⟨_, rfl⟩ (.inl h)
  next hdecimal =>
  split
  next h => exact iff_of_true ⟨_, rfl⟩ (.inr (.inl h))
  next hsmall =>
  split
  next h => exact iff_of_true ⟨_, rfl⟩ (.inr (.inr h))
  next hlarge => exact iff_of_false nofun (by simp [hdecimal, hsmall, hlarge])

/-- The digit of a value is the small letter of every digit with that value. -/
theorem digit_of_value? {b v : UInt8} (h : value? b = some v) : v < 16 ∧ digit v = lowerByte b := by
  have hall : ∀ b, (value? b).all fun v => v < 16 ∧ digit v = lowerByte b :=
    forall_byte (by decide +kernel)
  have hb := hall b
  rwa [h, Option.all_some, decide_eq_true_eq] at hb

theorem value?_digit : ∀ v : UInt8, v < 16 → value? (digit v) = some v :=
  forall_byte (by decide +kernel)

theorem mem_numerals_lowerByte (b : UInt8) : lowerByte b ∈ numerals ↔ b ∈ numerals := by
  rw [lowerByte]
  split
  next hcapital =>
    have hb := b.toNat_lt
    simp only [mem_numerals_iff, UInt8.le_iff_toNat_le, UInt8.toNat_add, UInt8.toNat_ofNat]
      at hcapital ⊢
    omega
  next => exact Iff.rfl

theorem forall_mem_lower_iff {t : Bytes} :
    (∀ b ∈ lower t, b ∈ numerals) ↔ ∀ b ∈ t, b ∈ numerals := by
  simp only [lower, List.forall_mem_map, mem_numerals_lowerByte]

theorem halves {x y : UInt8} (hx : x < 16) (hy : y < 16) :
    (16 * x + y) / 16 = x ∧ (16 * x + y) % 16 = y := by
  simp only [← UInt8.toNat_inj, UInt8.lt_iff_toNat_lt, UInt8.toNat_div, UInt8.toNat_mod,
    UInt8.toNat_add, UInt8.toNat_mul, UInt8.toNat_ofNat, Nat.reducePow, Nat.reduceMod] at *
  omega

theorem halves_lt (b : UInt8) : b / 16 < 16 ∧ b % 16 < 16 := by
  have := b.toNat_lt
  simp only [UInt8.lt_iff_toNat_lt, UInt8.toNat_div, UInt8.toNat_mod, UInt8.toNat_ofNat,
    Nat.reducePow, Nat.reduceMod]
  omega

theorem of_halves (b : UInt8) : 16 * (b / 16) + b % 16 = b := by
  have := b.toNat_lt
  simp only [← UInt8.toNat_inj, UInt8.toNat_div, UInt8.toNat_mod, UInt8.toNat_add, UInt8.toNat_mul,
    UInt8.toNat_ofNat, Nat.reducePow, Nat.reduceMod]
  omega

/-! ### Texts -/

@[simp] theorem encode_cons (b : UInt8) (s : Bytes) :
    encode (b :: s) = digit (b / 16) :: digit (b % 16) :: encode s := rfl

theorem decode?_eq_some_iff {h l : UInt8} {t s : Bytes} : decode? (h :: l :: t) = some s ↔
    ∃ x y r, value? h = some x ∧ value? l = some y ∧ decode? t = some r ∧ s = (16 * x + y) :: r := by
  simp only [decode?, bind, pure, Option.bind_eq_some_iff, Option.some.injEq, eq_comm (b := s),
    exists_and_left]

theorem decode?_encode (s : Bytes) : decode? (encode s) = some s := by
  induction s with
  | nil => rfl
  | cons b s ih =>
    obtain ⟨hhigh, hlow⟩ := halves_lt b
    rw [encode_cons, decode?_eq_some_iff]
    exact ⟨_, _, s, value?_digit _ hhigh, value?_digit _ hlow, ih, by rw [of_halves]⟩

/-- What was read is written in lower case. -/
theorem encode_of_decode? {t s : Bytes} (h : decode? t = some s) : encode s = lower t := by
  fun_induction decode? t generalizing s with
  | case1 =>
    cases h
    rfl
  | case2 => cases h
  | case3 hi lo t ih =>
    obtain ⟨x, y, r, hx, hy, hr, rfl⟩ := decode?_eq_some_iff.1 h
    obtain ⟨hxlt, hxdigit⟩ := digit_of_value? hx
    obtain ⟨hylt, hydigit⟩ := digit_of_value? hy
    obtain ⟨hhigh, hlow⟩ := halves hxlt hylt
    rw [encode_cons, hhigh, hlow, hxdigit, hydigit, ih hr]
    rfl

/-- Texts of the right length are read just when they have nothing but digits. -/
theorem exists_decode?_iff {t : Bytes} {n : Nat} (ht : t.length = 2 * n) :
    (∃ s, decode? t = some s) ↔ ∀ b ∈ t, b ∈ numerals := by
  induction n generalizing t with
  | zero =>
    rw [List.length_eq_zero_iff.1 ht]
    exact iff_of_true ⟨[], rfl⟩ (by simp)
  | succ n ih =>
    obtain _ | ⟨h, _ | ⟨l, t⟩⟩ := t
    · cases ht
    · simp only [List.length_cons, List.length_nil] at ht
      omega
    have ht : t.length = 2 * n := by
      simp only [List.length_cons] at ht
      omega
    simp only [decode?_eq_some_iff, List.forall_mem_cons, ← exists_value?_iff h,
      ← exists_value?_iff l, ← ih ht]
    constructor
    · rintro ⟨_, x, y, r, hx, hy, hr, -⟩
      exact ⟨⟨x, hx⟩, ⟨y, hy⟩, r, hr⟩
    · rintro ⟨⟨x, hx⟩, ⟨y, hy⟩, r, hr⟩
      exact ⟨_, x, y, r, hx, hy, hr, rfl⟩

/-- The same for what is made of a number of bytes. -/
theorem exists_bytes_iff {α : Type} {bytes : α → Bytes} {n : Nat} {t : Bytes}
    (hmake : ∀ s : Bytes, s.length = n → ∃ a, bytes a = s) :
    (∃ a, t.length = 2 * n ∧ decode? t = some (bytes a)) ↔
      t.length = 2 * n ∧ ∀ b ∈ t, b ∈ numerals := by
  rw [exists_and_left]
  refine and_congr_right fun hlength => ?_
  rw [← exists_decode?_iff hlength]
  constructor
  · rintro ⟨a, ha⟩
    exact ⟨bytes a, ha⟩
  · rintro ⟨s, hs⟩
    obtain ⟨a, rfl⟩ := hmake s (length_eq_of_decode? hlength hs)
    exact ⟨a, hs⟩

theorem mem_numerals_of_mem_encode {s : Bytes} {b : UInt8} (hb : b ∈ encode s) : b ∈ numerals :=
  (exists_decode?_iff (length_encode s)).1 ⟨s, decode?_encode s⟩ b hb

theorem take_encode (n : Nat) (s : Bytes) : (encode s).take (2 * n) = encode (s.take n) := by
  induction n generalizing s with
  | zero => rfl
  | succ n ih =>
    cases s with
    | nil => rfl
    | cons b s =>
      rw [encode_cons, Nat.mul_succ, List.take_succ_cons, List.take_succ_cons, ih]
      rfl

theorem drop_encode (n : Nat) (s : Bytes) : (encode s).drop (2 * n) = encode (s.drop n) := by
  induction n generalizing s with
  | zero => rfl
  | succ n ih =>
    cases s with
    | nil => rfl
    | cons b s =>
      rw [encode_cons, Nat.mul_succ, List.drop_succ_cons, List.drop_succ_cons, ih]
      rfl

/-- The high half of a byte stands at twice its index. -/
theorem getElem?_encode (s : Bytes) (i : Nat) :
    (encode s)[2 * i]? = s[i]?.map fun b => digit (b / 16) := by
  rw [← List.head?_drop, ← List.head?_drop, drop_encode]
  cases s.drop i with
  | nil => rfl
  | cons b s => rfl

/-! ### Reading place by place -/

/-- The byte of two digits. -/
def byte? (h l : UInt8) : Option UInt8 := do
  let h ← value? h
  let l ← value? l
  return 16 * h + l

theorem decode?_cons_cons (h l : UInt8) (t : Bytes) :
    decode? (h :: l :: t) = (byte? h l).bind fun b => (decode? t).map (b :: ·) := by
  rw [decode?, byte?]
  cases value? h with
  | none => rfl
  | some x =>
    cases value? l with
    | none => rfl
    | some y =>
      cases decode? t with
      | none => rfl
      | some s => rfl

section
variable {pair : UInt8 → UInt8 → Except Error UInt8} {e : Error}

/-- From some place on, what is left of the text fills what is left of the buffer. -/
theorem foldlM_fill (hpair : ∀ h l, pair h l = (byte? h l).elim (.error e) .ok) {n : Nat}
    {t filled rest : Bytes} (ht : t.drop (2 * filled.length) = rest) (hrest : rest.length = 2 * n) :
    (List.range' filled.length n).foldlM (fill pair t) (filled ++ List.replicate n 0) =
      (decode? rest).elim (.error e) fun s => .ok (filled ++ s) := by
  induction n generalizing filled rest with
  | zero =>
    rw [List.length_eq_zero_iff.1 hrest]
    rfl
  | succ n ih =>
    obtain _ | ⟨h, _ | ⟨l, rest⟩⟩ := rest
    · cases hrest
    · simp only [List.length_cons, List.length_nil] at hrest
      omega
    have hdigit : ∀ j, t.getD (2 * filled.length + j) 0 = (h :: l :: rest).getD j 0 := by
      intro j
      rw [← ht, List.getD_eq_getElem?_getD, List.getD_eq_getElem?_getD, List.getElem?_drop]
    have hfill : fill pair t (filled ++ List.replicate (n + 1) 0) filled.length =
        (byte? h l).elim (.error e) fun b => .ok (filled ++ [b] ++ List.replicate n 0) := by
      have hset : ∀ b, (filled ++ List.replicate (n + 1) 0).set filled.length b =
          filled ++ [b] ++ List.replicate n 0 := by
        intro b
        rw [List.replicate_succ, List.set_append_right _ _ (Nat.le_refl _), Nat.sub_self,
          List.set_cons_zero, List.append_assoc, List.singleton_append]
      have hhigh : t.getD (2 * filled.length) 0 = h := hdigit 0
      have hlow : t.getD (2 * filled.length + 1) 0 = l := hdigit 1
      rw [fill, hhigh, hlow, hpair]
      cases byte? h l with
      | none => rfl
      | some b => exact congrArg Except.ok (hset b)
    rw [List.range'_succ, List.foldlM_cons, hfill, decode?_cons_cons]
    cases byte? h l with
    | none => rfl
    | some b =>
      have hdrop : t.drop (2 * (filled ++ [b]).length) = rest := by
        rw [List.length_append, List.length_singleton, Nat.mul_add, ← List.drop_drop, ht]
        rfl
      have hlength : rest.length = 2 * n := by
        simp only [List.length_cons] at hrest
        omega
      have hrest := ih hdrop hlength
      rw [List.length_append, List.length_singleton] at hrest
      show List.foldlM (fill pair t) (filled ++ [b] ++ List.replicate n 0) _ = _
      rw [hrest, Option.bind_some]
      cases decode? rest with
      | none => rfl
      | some s => exact congrArg Except.ok (List.append_assoc filled [b] s)

/-- When pairs of digits come to their bytes, texts do. -/
theorem readPlaces_eq (hpair : ∀ h l, pair h l = (byte? h l).elim (.error e) .ok) {n : Nat}
    {t : Bytes} (ht : t.length = 2 * n) :
    readPlaces pair n t = (decode? t).elim (.error e) .ok := by
  have hstart : t.drop (2 * ([] : Bytes).length) = t := List.drop_zero ..
  rw [readPlaces, List.range_eq_range']
  exact foldlM_fill hpair hstart ht

end

end Hex

end Interledger
