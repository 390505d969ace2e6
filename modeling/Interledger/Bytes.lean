/-! Byte strings. Names, ids, messages and payloads are all plain bytes: lengths
count bytes, order is bytewise, and text is what ASCII makes of them. Cutting at a
separator and joining with it are inverse to each other. -/

namespace Interledger

abbrev Bytes := List UInt8

/-- The bytes of a text of ASCII characters. -/
def ascii (s : String) : Bytes := s.toList.map fun c => UInt8.ofNat c.toNat

instance : Coe String Bytes := ⟨ascii⟩

namespace Bytes

/-- Bytewise order, shorter first among a text and its extensions. -/
def lt : Bytes → Bytes → Bool
  | _, [] => false
  | [], _ :: _ => true
  | a :: s, b :: t => a < b || (a == b && lt s t)

/-- Bytewise ascending. -/
def sort (ss : List Bytes) : List Bytes := ss.mergeSort fun s t => !lt t s

/-- The parts between the separators: one more than there are separators. -/
def split (sep : UInt8) : Bytes → List Bytes
  | [] => [[]]
  | b :: s => if b = sep then [] :: split sep s else (split sep s).modifyHead (b :: ·)

/-- The parts with a separator between neighbours. -/
def join (sep : UInt8) : List Bytes → Bytes
  | [] => []
  | [p] => p
  | p :: q :: ps => p ++ sep :: join sep (q :: ps)

/-- What stands before the first zero byte, or all of it. -/
def upToZero (s : Bytes) : Bytes := s.takeWhile (· ≠ 0)

theorem upToZero_of_notMem {s : Bytes} (h : 0 ∉ s) : s.upToZero = s := by
  induction s with
  | nil => rfl
  | cons b s ih =>
    simp only [List.mem_cons, not_or] at h
    simpa [upToZero, Ne.symm h.1] using ih h.2

theorem split_ne_nil (sep : UInt8) (s : Bytes) : split sep s ≠ [] := by
  induction s with
  | nil => simp [split]
  | cons b s ih =>
    simp only [split]
    split
    · simp
    · cases h : split sep s with
      | nil => exact absurd h ih
      | cons p ps => simp

theorem join_cons_cons (sep b : UInt8) (p : Bytes) (ps : List Bytes) :
    join sep ((b :: p) :: ps) = b :: join sep (p :: ps) := by
  cases ps <;> simp [join]

@[simp] theorem join_split (sep : UInt8) (s : Bytes) : join sep (split sep s) = s := by
  induction s with
  | nil => rfl
  | cons b s ih =>
    simp only [split]
    split
    · next h =>
      cases hs : split sep s with
      | nil => exact absurd hs (split_ne_nil sep s)
      | cons p ps => rw [join, ← hs, ih, h, List.nil_append]
    · cases hs : split sep s with
      | nil => exact absurd hs (split_ne_nil sep s)
      | cons p ps => rw [List.modifyHead_cons, join_cons_cons, ← hs, ih]

/-- A joined text has no bytes but separators and those of the parts. -/
theorem mem_join {sep b : UInt8} {ps : List Bytes} (hb : b ∈ join sep ps) :
    b = sep ∨ ∃ p ∈ ps, b ∈ p := by
  induction ps with
  | nil => cases hb
  | cons p ps ih =>
    cases ps with
    | nil => exact .inr ⟨p, by simp, hb⟩
    | cons q qs =>
      rw [join, List.mem_append, List.mem_cons] at hb
      rcases hb with hb | rfl | hb
      · exact .inr ⟨p, by simp, hb⟩
      · exact .inl rfl
      · rcases ih hb with hsep | ⟨r, hr, hb⟩
        · exact .inl hsep
        · exact .inr ⟨r, List.mem_cons_of_mem _ hr, hb⟩

theorem split_of_notMem {sep : UInt8} {p : Bytes} (h : sep ∉ p) : split sep p = [p] := by
  induction p with
  | nil => rfl
  | cons b p ih =>
    simp only [List.mem_cons, not_or] at h
    simp [split, Ne.symm h.1, ih h.2]

theorem split_append {sep : UInt8} {p : Bytes} (h : sep ∉ p) (s : Bytes) :
    split sep (p ++ sep :: s) = p :: split sep s := by
  induction p with
  | nil => simp [split]
  | cons b p ih =>
    simp only [List.mem_cons, not_or] at h
    simp [split, Ne.symm h.1, ih h.2]

theorem split_join {sep : UInt8} {ps : List Bytes} (hne : ps ≠ []) (h : ∀ p ∈ ps, sep ∉ p) :
    split sep (join sep ps) = ps := by
  induction ps with
  | nil => exact absurd rfl hne
  | cons p ps ih =>
    cases ps with
    | nil => exact split_of_notMem (h p (by simp))
    | cons q ps =>
      rw [join, split_append (h p (by simp)), ih (by simp) fun r hr => h r (by simp [hr])]

end Bytes

end Interledger
