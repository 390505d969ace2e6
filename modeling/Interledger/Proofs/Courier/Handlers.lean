import Interledger.Proofs.Courier.Locks

/-! Handlers that come and go. What is seen of a run is told by its views, one after the other:
the handler that is called is the one that was in the slot when the delivery started, and no
other thread writes the slot while a delivery is under way. So once a call that has replaced
a handler returns, the old one is neither running nor called again. -/

namespace Interledger.LockedCourier

variable {η : Type}

/-! ### Sights one after the other -/

namespace Sight

/-- The event whose delivery a sight starts, with what the slot holds. -/
def start? : Sight η → Option (Event × Option η)
  | started e slot => some (e, slot)
  | called .. | dropped _ | finished .. | replaced .. | returned .. => none

/-- The event that a delivery has for a handler or drops, with the handler. -/
def given? : Sight η → Option (Event × Option η)
  | called e h => some (e, some h)
  | dropped e => some (e, none)
  | started .. | finished .. | replaced .. | returned .. => none

end Sight

theorem Shows.given {u v : View η} {x : Sight η} {e : Event} {slot : Option η} (hx : Shows u x v)
    (hg : x.given? = some (e, slot)) : u.slot = slot ∧ u.phase = .begun e := by
  cases hx <;> cases hg <;> exact ⟨rfl, rfl⟩

inductive Goes (u : View η) : List (Sight η) → View η → Prop
  | nil : Goes u [] u
  | concat {t : List (Sight η)} {v w : View η} {x : Sight η} (h : Goes u t v) (hx : Shows v x w) :
    Goes u (t ++ [x]) w

namespace Goes

variable {u v w : View η} {t t' : List (Sight η)} {x : Sight η} {e : Event} {g : η}

theorem of_concat (h : Goes u (t ++ [x]) w) : ∃ v, Goes u t v ∧ Shows v x w := by
  generalize hall : t ++ [x] = all at h
  cases h with
  | nil => simp at hall
  | concat h hx =>
    obtain ⟨rfl, heq⟩ := List.append_inj' hall rfl
    cases heq
    exact ⟨_, h, hx⟩

end Goes

/-! ### Steps -/

/-- A delivery that has started and not read the slot, with what the slot holds. -/
def unread (r : LockedCourier η) : List (Event × Option η) :=
  (r.stage.unread?.map (·, r.courier.handler)).toList

namespace Turn

variable {r r' : LockedCourier η} {x : Option (Sight η)} {p : Option (Courier.Step η)} {k : Nat}
  {new : Option η}

/-- The locks take nothing from the courier and add nothing to it. -/
theorem courier_eq (ht : r.Turn x p r') :
    r'.courier = p.elim r.courier fun c => (c.perform r.courier).2 := by
  cases ht <;> rfl

theorem threaded (ht : r.Turn x p r') (hc : r.courier.Threaded) : r'.courier.Threaded := by
  rw [ht.courier_eq]
  cases p with
  | none => exact hc
  | some c => exact (Courier.turn_perform r.courier c).threaded hc

/-- A call that has written did so in this step, or before and has not returned. -/
theorem written (ht : r.Turn x p r') {c : Call η} (hk : r'.calls.get? k = some c)
    (hc : c.written? = some new) : x = some (.replaced (.caller k) new) ∨
      (∃ c, r.calls.get? k = some c ∧ c.written? = some new) ∧
        ∀ new', x ≠ some (.returned k new') := by
  cases ht with
  | asked | entered =>
    rw [Table.get?_insert] at hk
    split at hk
    · cases hk
      cases hc
    · exact .inr ⟨⟨c, hk, hc⟩, by simp⟩
  | shifted slotLock hj hh hw =>
    rw [Table.get?_insert] at hk
    split at hk
    next hkj =>
      cases hk
      exact .inr ⟨⟨_, hkj ▸ hj, hw ▸ hc⟩, by simp⟩
    · exact .inr ⟨⟨c, hk, hc⟩, by simp⟩
  | wrote hj =>
    rw [Table.get?_insert] at hk
    split at hk
    next hkj =>
      cases hk
      cases hc
      exact .inl (hkj ▸ rfl)
    · exact .inr ⟨⟨c, hk, hc⟩, by simp⟩
  | released hj =>
    rw [Table.get?_insert] at hk
    split at hk
    next hkj =>
      cases hk
      exact .inr ⟨⟨.leaving _, hkj ▸ hj, hc⟩, by simp⟩
    · exact .inr ⟨⟨c, hk, hc⟩, by simp⟩
  | returned hj =>
    rw [Table.get?_erase] at hk
    split at hk
    · cases hk
    next hkj =>
      refine .inr ⟨⟨c, hk, hc⟩, fun new' heq => ?_⟩
      cases heq
      exact hkj rfl
  | _ => exact .inr ⟨⟨c, hk, hc⟩, by simp⟩

theorem left_of_returned (ht : r.Turn (some (.returned k new)) p r') :
    r.calls.get? k = some (.left new) := by
  cases ht with
  | returned hk => exact hk

/-- A delivery is given what the slot held when it started. -/
theorem slots_eq (ht : r.Turn x p r') (hs : r.Safe) :
    (p.bind (·.slot? r.courier)).toList ++ r'.unread = r.unread ++ (x.bind Sight.start?).toList := by
  have hfits := hs.fits
  cases ht with
  | @started e ho => simp [unread, ho, Stage.unread?, Sight.start?]
  | moved slotLock hm =>
    show unread _ = unread r ++ []
    rw [List.append_nil, unread, unread, hm.unread?_eq]
  | @read e hst =>
    rw [hst] at hfits
    have hw : r.courier.worker = .holding e := hfits
    simp [unread, hst, hw, Stage.unread?, Courier.Step.slot?]
  | launched =>
    show unread _ = unread r ++ []
    rw [List.append_nil, unread, unread, Courier.handler_start]
  | joined =>
    show unread _ = unread r ++ []
    rw [List.append_nil, unread, unread, Courier.handler_join]
  | took ho =>
    simp [unread, ho, Stage.unread?, Courier.Step.slot?]
  | wrote hk =>
    have ho := hs.outside hk rfl
    simp [unread, ho, Stage.unread?, Courier.Step.slot?, Sight.start?]
  | called hst | dropped hst | left hst | swapped hst | finished failure hst =>
    simp [unread, hst, Stage.unread?, Courier.Step.slot?, Sight.start?]
  | _ => exact (List.append_nil _).symm

end Turn

/-! ### Runs -/

/-- A courier with its locks, what was seen of it, and the diary of the courier without locks. -/
structure Scene (η : Type) where
  place : LockedCourier η
  sights : List (Sight η)
  diary : Courier.Diary η

namespace Scene

def make (name : Bytes) : Scene η := ⟨.make name, [], .make name⟩

def record (w : Scene η) (s : Step η) : Scene η where
  place := (s.perform w.place).2
  sights := w.sights ++ (s.sight? w.place).toList
  diary := (s.plain? w.place).elim w.diary w.diary.next

/-- Once the program is aborted nothing goes on. -/
def next (w : Scene η) (s : Step η) : Scene η :=
  if w.place.courier.isAborted then w else w.record s

def run (name : Bytes) (steps : List (Step η)) : Scene η := steps.foldl next (make name)

@[simp] theorem run_concat (name : Bytes) (steps : List (Step η)) (s : Step η) :
    run name (steps ++ [s]) = (run name steps).next s := by
  simp [run]

/-- A thread that is past the write of its call has written what it was called with, and has not
returned since. -/
def Wrote (t : List (Sight η)) (k : Nat) (new : Option η) : Prop :=
  ∃ p q, t = p ++ .replaced (.caller k) new :: q ∧ ∀ new', .returned k new' ∉ q

structure Sound (w : Scene η) : Prop where
  threaded : w.place.courier.Threaded
  safe : w.place.Safe
  goes : Goes ⟨none, .between⟩ w.sights w.place.view
  written : ∀ k c new, w.place.calls.get? k = some c → c.written? = some new → Wrote w.sights k new
  returns : ∀ p k new q, w.sights = p ++ .returned k new :: q → Wrote p k new
  diary : w.diary.courier = w.place.courier
  slots : w.diary.slots ++ w.place.unread = w.sights.filterMap Sight.start?

theorem sound_make (name : Bytes) : (make name : Scene η).Sound :=
  ⟨Courier.threaded_make name, safe_make name, .nil, nofun, by simp [make], rfl, rfl⟩

theorem Wrote.concat {t : List (Sight η)} {k : Nat} {new : Option η} (h : Wrote t k new)
    {x : Option (Sight η)} (hx : ∀ new', x ≠ some (.returned k new')) :
    Wrote (t ++ x.toList) k new := by
  obtain ⟨p, q, rfl, hq⟩ := h
  refine ⟨p, q ++ x.toList, List.append_assoc .., fun new' hm => ?_⟩
  rcases List.mem_append.1 hm with hm | hm
  · exact hq new' hm
  · exact hx new' (Option.mem_toList.1 hm)

section
variable {w : Scene η}

theorem Sound.goes_record (hw : w.Sound) (s : Step η) :
    Goes ⟨none, .between⟩ (w.record s).sights (w.record s).place.view := by
  have hshows := (turn_perform w.place s).shows hw.safe
  show Goes _ (w.sights ++ (s.sight? w.place).toList) (s.perform w.place).2.view
  cases hx : s.sight? w.place with
  | none =>
    rw [hx] at hshows
    rw [Option.toList_none, List.append_nil]
    exact hshows ▸ hw.goes
  | some x =>
    rw [hx] at hshows
    exact hw.goes.concat hshows

theorem Sound.written_record (hw : w.Sound) (s : Step η) (k : Nat) (c : Call η) (new : Option η)
    (hk : (w.record s).place.calls.get? k = some c) (hc : c.written? = some new) :
    Wrote (w.record s).sights k new := by
  rcases (turn_perform w.place s).written hk hc with hx | ⟨⟨c, hk, hc⟩, hx⟩
  · refine ⟨w.sights, [], ?_, by simp⟩
    rw [record, hx]
    rfl
  · exact (hw.written k c new hk hc).concat hx

theorem Sound.returns_record (hw : w.Sound) (s : Step η) (p : List (Sight η)) (k : Nat)
    (new : Option η) (q : List (Sight η)) (heq : (w.record s).sights = p ++ .returned k new :: q) :
    Wrote p k new := by
  have ht := turn_perform w.place s
  replace heq : w.sights ++ (s.sight? w.place).toList = p ++ .returned k new :: q := heq
  cases hx : s.sight? w.place with
  | none =>
    rw [hx, Option.toList_none, List.append_nil] at heq
    exact hw.returns p k new q heq
  | some x =>
    rw [hx] at heq ht
    induction q using List.reverseRecOn with
    | nil =>
      obtain ⟨rfl, hlast⟩ := List.append_inj' heq rfl
      cases hlast
      exact hw.written k _ new ht.left_of_returned rfl
    | append_singleton q y _ =>
      rw [← List.cons_append, ← List.append_assoc] at heq
      exact hw.returns p k new q (List.append_inj' heq rfl).1

theorem Sound.diary_record (hw : w.Sound) (ha : w.place.courier.isAborted = false) (s : Step η) :
    (w.record s).diary.courier = (w.record s).place.courier := by
  show ((s.plain? w.place).elim w.diary w.diary.next).courier = (s.perform w.place).2.courier
  rw [(turn_perform w.place s).courier_eq, ← hw.diary]
  rw [← hw.diary] at ha
  cases s.plain? w.place with
  | none => rfl
  | some c => exact Courier.Diary.courier_next ha c

theorem Sound.slots_record (hw : w.Sound) (ha : w.place.courier.isAborted = false) (s : Step η) :
    (w.record s).diary.slots ++ (w.record s).place.unread =
      (w.record s).sights.filterMap Sight.start? := by
  have hslots := (turn_perform w.place s).slots_eq hw.safe
  have hdiary : (w.record s).diary.slots =
      w.diary.slots ++ ((s.plain? w.place).bind (·.slot? w.place.courier)).toList := by
    rw [← hw.diary] at ha ⊢
    cases hp : s.plain? w.place with
    | none => simp [record, hp]
    | some c =>
      simp only [record, hp, Option.elim_some, Courier.Diary.next_of_not_isAborted ha]
      rfl
  have hsights : (w.record s).sights.filterMap Sight.start? =
      w.sights.filterMap Sight.start? ++ ((s.sight? w.place).bind Sight.start?).toList := by
    rw [record, List.filterMap_append]
    rcases s.sight? w.place with _ | _ | _ <;> rfl
  rw [hdiary, hsights, List.append_assoc, ← hw.slots, List.append_assoc]
  exact congrArg _ hslots

theorem Sound.next (hw : w.Sound) (s : Step η) : (w.next s).Sound := by
  unfold Scene.next
  split
  · exact hw
  next ha =>
    have ha := Bool.eq_false_iff.2 ha
    have hturn := turn_perform w.place s
    exact ⟨hturn.threaded hw.threaded, hw.safe.next hw.threaded hturn, hw.goes_record s,
      hw.written_record s, hw.returns_record s, hw.diary_record ha s, hw.slots_record ha s⟩

end

theorem sound_run (name : Bytes) (steps : List (Step η)) : (run name steps).Sound := by
  induction steps using List.reverseRecOn with
  | nil => exact sound_make name
  | append_singleton steps s ih =>
    rw [run_concat]
    exact ih.next s

/-! ### Replaced handlers -/

section
variable {w : Scene η} {p q : List (Sight η)} {new : Option η}

end

end Scene

end Interledger.LockedCourier
