import Interledger.Proofs.Hex
import Interledger.TransferId.Places
import Mathlib.Algebra.GroupWithZero.Nat

/-! Transfer ids as text. An id is read from thirty-two hexadecimal digits with dashes anywhere
among them, and is written with small letters in five groups. Every id is read back from its
text. Of sixteen random bytes an id keeps all bits but six, which say its version and variant. -/

namespace Interledger

namespace Bytes

/-- Parts of given lengths, one behind the other. -/
def cut : List Nat → Bytes → List Bytes
  | [], _ => []
  | n :: ns, s => s.take n :: cut ns (s.drop n)

theorem flatten_cut (ns : List Nat) (s : Bytes) : (cut ns s).flatten = s.take ns.sum := by
  induction ns generalizing s with
  | nil => rfl
  | cons n ns ih => rw [cut, List.flatten_cons, ih, List.sum_cons, List.take_add]

theorem mem_of_mem_cut {ns : List Nat} {s p : Bytes} {b : UInt8} (hp : p ∈ cut ns s) (hb : b ∈ p) :
    b ∈ s := by
  have hflat : b ∈ (cut ns s).flatten := List.mem_flatten.2 ⟨p, hp, hb⟩
  rw [flatten_cut] at hflat
  exact List.mem_of_mem_take hflat

/-- Without the separators, the parts are left. -/
theorem filter_join {sep : UInt8} {ps : List Bytes} (h : ∀ p ∈ ps, sep ∉ p) :
    (join sep ps).filter (· ≠ sep) = ps.flatten := by
  have hkeep : ∀ p : Bytes, sep ∉ p → p.filter (· ≠ sep) = p := by
    intro p hp
    refine List.filter_eq_self.2 fun b hb => ?_
    simpa using fun hsep : b = sep => hp (hsep ▸ hb)
  induction ps with
  | nil => rfl
  | cons p ps ih =>
    have hp := hkeep p (h p (by simp))
    cases ps with
    | nil => rw [join, hp, List.flatten_singleton]
    | cons q qs =>
      rw [join, List.filter_append, hp, List.filter_cons_of_neg (by simp),
        ih fun r hr => h r (List.mem_cons_of_mem p hr)]
      rfl

end Bytes

namespace Literal

/-! ### Two digits as a number -/

theorem not_blank_or_sign_of_value? {b x : UInt8} (h : Hex.value? b = some x) :
    isBlank b = false ∧ b ≠ 43 ∧ b ≠ 45 := by
  have hall : ∀ b, (Hex.value? b).isSome → isBlank b = false ∧ b ≠ 43 ∧ b ≠ 45 :=
    Bytes.forall_byte (by decide +kernel)
  exact hall b (Option.isSome_of_eq_some h)

theorem digit?_sixteen {b x : UInt8} (h : Hex.value? b = some x) : digit? 16 b = some x.toNat := by
  have hlt : x.toNat < 16 := UInt8.lt_iff_toNat_lt.1 (Hex.digit_of_value? h).1
  rw [digit?, h, Option.map_some, Option.filter_some, if_pos (decide_eq_true hlt)]

/-- Two digits are a number as they stand: neither is blank or a sign, and the base is cut off in
front of a third digit only. -/
theorem leading?_pair {h l x y : UInt8} (hx : Hex.value? h = some x) (hy : Hex.value? l = some y) :
    leading? [h, l] = some (16 * x.toNat + y.toNat) := by
  obtain ⟨hblank, hplus, hminus⟩ := not_blank_or_sign_of_value? hx
  have hhigh := digit?_sixteen hx
  have hlow := digit?_sixteen hy
  have hstart : [h, l].dropWhile isBlank = [h, l] := by simp [hblank]
  have hsign : cutSign [h, l] = (false, [h, l]) := by
    unfold cutSign
    split
    next heq => exact absurd (List.cons.inj heq).1 hminus
    next heq => exact absurd (List.cons.inj heq).1 hplus
    · rfl
  have hbase : cutBase [h, l] = [h, l] := by
    unfold cutBase
    split
    next heq => nomatch heq
    next heq => nomatch heq
    · rfl
  have hnatural : natural? 16 [h, l] = some (16 * x.toNat + y.toNat) := by
    simp [natural?, hhigh, hlow]
  have hbound : ¬2 ^ 64 ≤ 16 * x.toNat + y.toNat := by
    have := x.toNat_lt
    have := y.toNat_lt
    omega
  have hdigits : ([h, l].takeWhile fun b => (digit? 16 b).isSome) = [h, l] := by simp [hhigh, hlow]
  rw [leading?, hstart, hsign]
  dsimp only
  rw [hbase, hdigits, if_neg (List.cons_ne_nil h [l]), hnatural]
  exact if_neg hbound

end Literal

namespace TransferId

open Bytes (cut lower)

variable {t : Bytes} {u : TransferId}

/-! ### Five groups -/

/-- The digits of a text: all but the dashes. -/
def digitsOf (t : Bytes) : Bytes := t.filter (· ≠ dash)

/-- Digits in groups of eight, four, four, four and twelve, with dashes between them. -/
def grouped (digits : Bytes) : Bytes := Bytes.join dash (cut [8, 4, 4, 4, 12] digits)

theorem cut_encode (ns : List Nat) (s : Bytes) :
    cut (ns.map (2 * ·)) (Hex.encode s) = (cut ns s).map Hex.encode := by
  induction ns generalizing s with
  | nil => rfl
  | cons n ns ih => rw [List.map_cons, cut, Hex.take_encode, Hex.drop_encode, ih, cut, List.map_cons]

theorem text_eq (u : TransferId) : u.text = grouped (Hex.encode u.bytes) := by
  have hlast : (u.bytes.drop 10).take 6 = u.bytes.drop 10 :=
    List.take_of_length_le (by simp [u.length_eq])
  have hgroups : cut [8, 4, 4, 4, 12] (Hex.encode u.bytes) =
      (cut [4, 2, 2, 2, 6] u.bytes).map Hex.encode := cut_encode [4, 2, 2, 2, 6] u.bytes
  rw [grouped, hgroups]
  simp only [text, cut, List.drop_drop, Nat.reduceAdd, hlast]

section
variable {d : Bytes} (hd : d.length = 32)
include hd

theorem length_grouped : (grouped d).length = 36 := by
  simp [grouped, cut, Bytes.join, hd]

theorem digitsOf_grouped (hdash : dash ∉ d) : digitsOf (grouped d) = d := by
  rw [digitsOf, grouped, Bytes.filter_join fun p hp hb => hdash (Bytes.mem_of_mem_cut hp hb),
    Bytes.flatten_cut]
  exact List.take_of_length_le (Nat.le_of_eq hd)

/-- The third group starts with the thirteenth digit, and the fourth with the seventeenth. -/
theorem getElem?_grouped : (grouped d)[14]? = d[12]? ∧ (grouped d)[19]? = d[16]? := by
  simp [grouped, cut, Bytes.join, hd]

end

theorem length_encode (u : TransferId) : (Hex.encode u.bytes).length = 32 := by
  rw [Hex.length_encode, u.length_eq]

theorem digitsOf_text (u : TransferId) : digitsOf u.text = Hex.encode u.bytes := by
  rw [text_eq]
  exact digitsOf_grouped (length_encode u) fun hb =>
    absurd (Hex.mem_numerals_of_mem_encode hb) (by decide)

/-- The third and the fourth group start with the high halves of the bytes at 6 and 8. -/
theorem getElem?_text (u : TransferId) :
    u.text[14]? = u.bytes[6]?.map (fun b => Hex.digit (b / 16)) ∧
      u.text[19]? = u.bytes[8]?.map (fun b => Hex.digit (b / 16)) := by
  obtain ⟨hthird, hfourth⟩ := getElem?_grouped (length_encode u)
  rw [text_eq, hthird, hfourth]
  exact ⟨Hex.getElem?_encode u.bytes 6, Hex.getElem?_encode u.bytes 8⟩

/-! ### Reading and writing -/

theorem parse_eq_ok_iff :
    parse t = .ok u ↔ (digitsOf t).length = 32 ∧ Hex.decode? (digitsOf t) = some u.bytes := by
  unfold parse
  show (if hl : (digitsOf t).length = 32 then _ else _) = _ ↔ _
  split
  next hlength =>
    split
    next s hs =>
      constructor
      · intro h
        cases h
        exact ⟨hlength, hs⟩
      · rintro ⟨-, hread⟩
        cases u
        cases Option.some.inj (hs.symm.trans hread)
        rfl
    next hnone => simp [show Hex.decode? (digitsOf t) = none from hnone]
  next hlength => simp [hlength]

theorem exists_parse_iff : (∃ u, parse t = .ok u) ↔
    (digitsOf t).length = 32 ∧ ∀ b ∈ digitsOf t, b ∈ Hex.numerals := by
  simp only [parse_eq_ok_iff]
  exact Hex.exists_bytes_iff (n := 16) fun s hs => ⟨⟨s, hs⟩, rfl⟩

theorem kind_of_parse {e : Error} (h : parse t = .error e) : e.kind = .argument := by
  unfold parse at h
  dsimp only at h
  split at h
  · split at h
    · cases h
    · cases h
      rfl
  · cases h
    rfl

theorem text_of_parse (h : parse t = .ok u) : u.text = grouped (lower (digitsOf t)) := by
  rw [text_eq, Hex.encode_of_decode? (parse_eq_ok_iff.1 h).2]

theorem parse_text (u : TransferId) : parse u.text = .ok u :=
  parse_eq_ok_iff.2 (by
    rw [digitsOf_text]
    exact ⟨length_encode u, Hex.decode?_encode u.bytes⟩)

/-! ### Random ids -/

/-- A bit of a byte of a text. -/
def bit (s : Bytes) (i j : Nat) : Bool := (s.getD i 0).toNat.testBit j

/-- The bits that are the same in all random ids: the upper four of the byte at index 6, and the
upper two of the byte at index 8. -/
def IsFixed (i j : Nat) : Prop := i = 6 ∧ 4 ≤ j ∧ j < 8 ∨ i = 8 ∧ 6 ≤ j ∧ j < 8

instance (i j : Nat) : Decidable (IsFixed i j) := inferInstanceAs (Decidable (_ ∨ _))

theorem eq_of_bit_eq {s s' : Bytes} (hlength : s.length = s'.length)
    (h : ∀ i j, bit s i j = bit s' i j) : s = s' := by
  refine List.ext_getElem hlength fun i hi hi' => UInt8.toNat_inj.1 (Nat.eq_of_testBit_eq fun j => ?_)
  have hbit := h i j
  simpa [bit, hi, hi'] using hbit

theorem eq_of_bytes {u v : TransferId} (h : u.bytes = v.bytes) : u = v := by
  cases u
  cases v
  cases h
  rfl

/-- Keeping the lower bits and setting one of the others fixes all of these. -/
theorem testBit_marked {b keep mark : UInt8} {k m : Nat} (hkeep : keep.toNat = 2 ^ k - 1)
    (hmark : mark.toNat = 2 ^ m) (hkm : k ≤ m) (j : Nat) : ((b &&& keep) ||| mark).toNat.testBit j =
      if k ≤ j ∧ j < 8 then decide (j = m) else b.toNat.testBit j := by
  have hm : m < 8 := (Nat.pow_lt_pow_iff_right (by decide)).1 (hmark ▸ mark.toNat_lt)
  rw [UInt8.toNat_or, UInt8.toNat_and, hkeep, hmark, Nat.testBit_or, Nat.testBit_and,
    Nat.testBit_two_pow_sub_one, Nat.testBit_two_pow]
  by_cases hlow : j < k
  · have hne : m ≠ j := by omega
    simp [hlow, hne, Nat.not_le.2 hlow]
  by_cases hhigh : j < 8
  · simp [hlow, hhigh, Nat.le_of_not_lt hlow, eq_comm]
  · have hne : m ≠ j := by omega
    have hzero : b.toNat.testBit j = false :=
      Nat.testBit_lt_two_pow (Nat.lt_of_lt_of_le b.toNat_lt
        (Nat.pow_le_pow_right (by decide) (Nat.le_of_not_lt hhigh)))
    simp [hhigh, hne, hzero]

section
variable {s s' : Bytes} (h : s.length = 16) (h' : s'.length = 16)

theorem getD_ofRandom (i : Nat) : (ofRandom s h).bytes.getD i 0 =
    if i = 6 then (s.getD i 0 &&& 0x0F) ||| 0x40
    else if i = 8 then (s.getD i 0 &&& 0x3F) ||| 0x80
    else s.getD i 0 := by
  have hmodify : ∀ (t : Bytes) (k : Nat) (f : UInt8 → UInt8), k < t.length →
      (t.modify k f).getD i 0 = if i = k then f (t.getD i 0) else t.getD i 0 := by
    intro t k f hk
    rw [List.getD_eq_getElem?_getD, List.getElem?_modify, List.getD_eq_getElem?_getD]
    by_cases hik : i = k
    · subst hik
      simp [hk]
    · simp [hik, Ne.symm hik]
  show ((s.modify 6 _).modify 8 _).getD i 0 = _
  rw [hmodify _ 8 _ (by simp [h]), hmodify s 6 _ (by simp [h])]
  by_cases hi : i = 6
  · subst hi
    rfl
  · simp [hi]

/-- A random id keeps the bits that are not fixed. Of those that are, one in each byte is set. -/
theorem bit_ofRandom (i j : Nat) : bit (ofRandom s h).bytes i j =
    if IsFixed i j then decide (i = 6 ∧ j = 6 ∨ i = 8 ∧ j = 7) else bit s i j := by
  rw [bit, getD_ofRandom]
  by_cases hversion : i = 6
  · subst hversion
    rw [if_pos rfl, testBit_marked (k := 4) (m := 6) rfl rfl (by decide)]
    simp [IsFixed, bit]
  rw [if_neg hversion]
  by_cases hvariant : i = 8
  · subst hvariant
    rw [if_pos rfl, testBit_marked (k := 6) (m := 7) rfl rfl (by decide)]
    simp [IsFixed, bit]
  · simp [IsFixed, hversion, hvariant, bit]

theorem ofRandom_eq_iff :
    ofRandom s h = ofRandom s' h' ↔ ∀ i j, ¬IsFixed i j → bit s i j = bit s' i j := by
  constructor
  · intro heq i j hfree
    have hbit := congrArg (fun u : TransferId => bit u.bytes i j) heq
    simpa only [bit_ofRandom, if_neg hfree] using hbit
  · intro hfree
    have hbytes : (ofRandom s h).bytes = (ofRandom s' h').bytes := by
      refine eq_of_bit_eq ((ofRandom s h).length_eq.trans (ofRandom s' h').length_eq.symm)
        fun i j => ?_
      rw [bit_ofRandom, bit_ofRandom]
      split
      · rfl
      next hij => exact hfree i j hij
    exact eq_of_bytes hbytes

/-- The version and the variant show in the text. -/
theorem getElem?_ofRandom : (ofRandom s h).text[14]? = some 52 ∧
    ∃ b ∈ ("89ab" : Bytes), (ofRandom s h).text[19]? = some b := by
  have hversion : ∀ b : UInt8, Hex.digit (((b &&& 0x0F) ||| 0x40) / 16) = 52 :=
    Bytes.forall_byte (by decide +kernel)
  have hvariant : ∀ b : UInt8, Hex.digit (((b &&& 0x3F) ||| 0x80) / 16) ∈ ("89ab" : Bytes) :=
    Bytes.forall_byte (by decide +kernel)
  have hbyte : ∀ i < 16, (ofRandom s h).bytes[i]? = some ((ofRandom s h).bytes.getD i 0) := by
    intro i hi
    rw [List.getElem?_eq_getElem (by rwa [length_eq]), List.getD_eq_getElem?_getD,
      List.getElem?_eq_getElem (by rwa [length_eq]), Option.getD_some]
  obtain ⟨hthird, hfourth⟩ := getElem?_text (ofRandom s h)
  rw [hthird, hfourth, hbyte 6 (by decide), hbyte 8 (by decide), getD_ofRandom, getD_ofRandom]
  exact ⟨congrArg some (hversion _), _, hvariant _, rfl⟩

end

/-! ### Place by place -/

theorem pair_eq (t : Bytes) (h l : UInt8) :
    pair t h l = (Hex.byte? h l).elim (.error (.badTransferId t)) .ok := by
  rw [pair, Hex.byte?]
  cases hx : Hex.value? h with
  | none => rfl
  | some x =>
    cases hy : Hex.value? l with
    | none => rfl
    | some y =>
      rw [Literal.leading?_pair hx hy]
      refine congrArg Except.ok (UInt8.toNat_inj.1 ?_)
      simp

theorem scan_eq (t : Bytes) : scan t = (parse t).map (·.bytes) := by
  unfold scan parse
  dsimp only
  by_cases hlength : (t.filter (· ≠ dash)).length = 32
  · rw [if_neg (by simpa using hlength), dif_pos hlength, Hex.readPlaces_eq (pair_eq t) hlength]
    split
    next s hs => exact congrArg (Option.elim · _ Except.ok) hs
    next hnone => exact congrArg (Option.elim · _ Except.ok) hnone
  · rw [if_pos hlength, dif_neg hlength]
    rfl

/-- With a zero in front of a single digit, a byte has its two digits. -/
theorem padded_numeral (b : UInt8) : padded 2 48 (numeral b.toNat) = Hex.encode [b] := by
  have hb := b.toNat_lt
  have hhigh : UInt8.ofNat (b.toNat / 16) = b / 16 := by
    rw [← UInt8.toNat_inj, UInt8.toNat_ofNat', UInt8.toNat_div]
    exact Nat.mod_eq_of_lt (by omega)
  have hlow : UInt8.ofNat (b.toNat % 16) = b % 16 := by
    rw [← UInt8.toNat_inj, UInt8.toNat_ofNat', UInt8.toNat_mod]
    exact Nat.mod_eq_of_lt (by omega)
  rw [numeral]
  split
  next hsmall =>
    rw [Nat.div_eq_of_lt hsmall] at hhigh
    rw [Nat.mod_eq_of_lt hsmall] at hlow
    rw [Hex.encode_cons, ← hhigh, ← hlow]
    rfl
  next hlarge =>
    rw [numeral, if_pos (by omega), hhigh, hlow]
    rfl

theorem flatMap_place {p : Bytes} {k : Nat} (hp : p ≠ [])
    (h : ∀ i, k < i → i < k + p.length → ¬(i = 4 ∨ i = 6 ∨ i = 8 ∨ i = 10)) :
    ((p.zipIdx k).flatMap fun (b, i) => place b i) =
      (if k = 4 ∨ k = 6 ∨ k = 8 ∨ k = 10 then [dash] else []) ++ Hex.encode p := by
  induction p generalizing k with
  | nil => exact absurd rfl hp
  | cons b p ih =>
    show place b k ++ ((p.zipIdx (k + 1)).flatMap fun (b, i) => place b i) = _
    rw [place, padded_numeral, List.append_assoc]
    cases p with
    | nil => rfl
    | cons c p =>
      have hlength : (b :: c :: p).length = (c :: p).length + 1 := rfl
      rw [ih (List.cons_ne_nil c p) fun i hi hi' => h i (by omega) (by omega),
        if_neg (h (k + 1) (by omega) (by simp))]
      rfl

theorem print_bytes (u : TransferId) : print u.bytes = u.text := by
  have hlength := u.length_eq
  have hne : u.bytes ≠ [] := List.ne_nil_of_length_eq_add_one hlength
  have hparts : u.bytes = u.bytes.take 4 ++ (u.bytes.drop 4).take 2 ++ (u.bytes.drop 6).take 2 ++
      (u.bytes.drop 8).take 2 ++ u.bytes.drop 10 := by
    have hflat := Bytes.flatten_cut [4, 2, 2, 2, 6] u.bytes
    simpa [Bytes.cut, hlength, List.take_of_length_le] using hflat.symm
  rw [print, hparts]
  simp only [List.zipIdx_append, List.flatMap_append]
  rw [flatMap_place, flatMap_place, flatMap_place, flatMap_place, flatMap_place]
  · simp [hlength, text, Bytes.join]
  all_goals simp [hlength, hne]
  all_goals
    intro i hi hi'
    omega

/-- A text is read as an id just when all of it but the dashes are thirty-two hexadecimal digits,
and any other text is refused as an argument. The text of the id has these digits with small
letters, in groups of eight, four, four, four and twelve; it has thirty-six characters, and every
id is read back from its text. An id of sixteen random bytes has a 4 at index 14 of its text and
one of 8, 9, a and b at index 19, and it is the same for others just when they differ at most in
the six fixed bits. Reading pairs of digits as numbers and writing numbers filled with zeros
comes to the same. -/
theorem texts_denote_ids :
    (∀ t, (∃ u, parse t = .ok u) ↔
      (digitsOf t).length = 32 ∧ ∀ b ∈ digitsOf t, b ∈ Hex.numerals) ∧
    (∀ t e, parse t = .error e → e.kind = .argument) ∧
    (∀ t u, parse t = .ok u → u.text = grouped (lower (digitsOf t))) ∧
    (∀ u : TransferId, u.text.length = 36 ∧ parse u.text = .ok u) ∧
    (∀ s h, (ofRandom s h).text[14]? = some 52 ∧
      ∃ b ∈ ("89ab" : Bytes), (ofRandom s h).text[19]? = some b) ∧
    (∀ s s' h h', ofRandom s h = ofRandom s' h' ↔
      ∀ i j, ¬IsFixed i j → bit s i j = bit s' i j) ∧
    (∀ t, scan t = (parse t).map (·.bytes)) ∧
    ∀ u : TransferId, print u.bytes = u.text := by
  refine ⟨fun t => exists_parse_iff, fun t e => kind_of_parse, fun t u => text_of_parse,
    fun u => ⟨?_, parse_text u⟩, fun s => getElem?_ofRandom, fun s s' => ofRandom_eq_iff,
    scan_eq, print_bytes⟩
  rw [text_eq, length_grouped (length_encode u)]

end TransferId

end Interledger
