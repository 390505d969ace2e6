import Interledger.Event.LockedCourier
import Interledger.Proofs.Courier

/-! The two locks of a courier. Each step is one move of the worker or of another thread, and
whatever order the moves come in, who has the delivery lock is alone with the slot: nobody
else reads or writes it. Seen from outside, deliveries come one after the other, and a thread
that replaces the handler does so between them. -/

namespace Interledger.LockedCourier

open Log (Line)

variable {η : Type}

/-! ### Steps and what can be seen of them -/

/-- The calls on a courier, from a handler and from other threads, and all their moves. -/
inductive Step (η : Type) where
  | raise (e : Event)
  | start
  | close
  | join
  | take
  | work
  | replace (new : Option η)
  | finish (failure : Option Bytes)
  | call (k : Nat) (new : Option η)
  | advance (k : Nat)

/-- What a step logs, and what it leaves. -/
def Step.perform (r : LockedCourier η) : Step η → List Line × LockedCourier η
  | raise e => ([], r.raise e)
  | start => ([], r.start)
  | close => ([], r.close)
  | join => ([], r.join)
  | take => ([], r.take)
  | work => r.work
  | replace new => ([], r.replace new)
  | finish failure => r.finish failure
  | call k new => ([], r.call k new)
  | advance k => ([], r.advance k)

/-- What can be seen of a delivery and of the calls that replace a handler. -/
inductive Sight (η : Type) where
  /-- A delivery starts, with what the slot holds at that moment. -/
  | started (e : Event) (slot : Option η)
  | called (e : Event) (handler : η)
  | dropped (e : Event)
  | finished (e : Event) (handler : η)
  /-- The slot is written. -/
  | replaced (who : Holder) (new : Option η)
  /-- A call from another thread returns. -/
  | returned (k : Nat) (new : Option η)

def Step.sight? (r : LockedCourier η) : Step η → Option (Sight η)
  | work =>
    match r.stage with
    | .outside =>
      match r.courier.worker, r.deliveryLock with
      | .holding e, none => some (.started e r.courier.handler)
      | _, _ => none
    | .ready e (some h) => some (.called e h)
    | .ready e none => some (.dropped e)
    | .inside _ _ (.writing new) => some (.replaced .worker new)
    | _ => none
  | finish _ =>
    match r.stage with
    | .inside e h .none => some (.finished e h)
    | _ => none
  | advance k =>
    match r.calls.get? k with
    | some (.writing new) => some (.replaced (.caller k) new)
    | some (.left new) => some (.returned k new)
    | _ => none
  | raise _ | start | close | join | take | replace _ | call .. => none

/-- The step of the courier without locks that a step amounts to. -/
def Step.plain? (r : LockedCourier η) : Step η → Option (Courier.Step η)
  | raise e => some (.raise e)
  | start => some .start
  | close => some .close
  | join => some .join
  | take =>
    match r.stage with
    | .outside => some .take
    | _ => none
  | work =>
    match r.stage with
    | .reading _ => some .deliver
    | .inside _ _ (.writing new) => some (.setHandler new)
    | _ => none
  | finish failure =>
    match r.stage with
    | .inside _ _ .none => some (.finish failure)
    | _ => none
  | advance k =>
    match r.calls.get? k with
    | some (.writing new) => some (.setHandler new)
    | _ => none
  | replace _ | call .. => none

/-! ### All that a step can do -/

/-- Where a delivery is, seen from outside. -/
inductive Phase (η : Type) where
  | between
  | begun (e : Event)
  | running (e : Event) (handler : η)

namespace Stage

def phase : Stage η → Phase η
  | outside | leaving => .between
  | entered e | reading e | copied e _ | ready e _ => .begun e
  | inside e h _ => .running e h

/-- What the courier without locks does at a stage; the copy is what is still in the slot. -/
def Fits (c : Courier η) : Stage η → Prop
  | outside => c.worker.given = none
  | entered e | reading e => c.worker = .holding e
  | copied e slot | ready e slot => slot = c.handler ∧ c.worker = slot.elim .idle (.delivering e)
  | inside e h _ => c.worker = .delivering e h
  | leaving => c.worker = .idle

/-- A delivery that has started and has not read the slot. -/
def unread? : Stage η → Option Event
  | entered e | reading e => some e
  | outside | copied .. | ready .. | inside .. | leaving => none

/-- A move within a delivery that nobody sees and that leaves the courier alone. -/
inductive Moves : Stage η → Stage η → Prop
  | reading (e : Event) : Moves (.entered e) (.reading e)
  | ready (e : Event) (slot : Option η) : Moves (.copied e slot) (.ready e slot)
  | asked (e : Event) (h : η) (new : Option η) :
    Moves (.inside e h .none) (.inside e h (.asked new))
  | writing (e : Event) (h : η) (new : Option η) :
    Moves (.inside e h (.asked new)) (.inside e h (.writing new))
  | back (e : Event) (h : η) : Moves (.inside e h .wrote) (.inside e h .none)

theorem Moves.ne_outside {stage stage' : Stage η} (hm : stage.Moves stage') : stage ≠ outside := by
  rintro rfl
  cases hm

theorem Moves.phase_eq {stage stage' : Stage η} (hm : stage.Moves stage') :
    stage'.phase = stage.phase := by
  cases hm <;> rfl

theorem Moves.unread?_eq {stage stage' : Stage η} (hm : stage.Moves stage') :
    stage'.unread? = stage.unread? := by
  cases hm <;> rfl

end Stage

namespace Call

/-- Whether a call has the delivery lock. -/
def holds : Call η → Bool
  | entered _ | writing _ | wrote _ | leaving _ => true
  | asked _ | left _ => false

/-- What a call has written into the slot. -/
def written? : Call η → Option (Option η)
  | wrote new | leaving new | left new => some new
  | asked _ | entered _ | writing _ => none

end Call

/-- What is seen of a step, the step of the courier without locks that it amounts to, and what
it leaves. -/
inductive Turn (r : LockedCourier η) :
    Option (Sight η) → Option (Courier.Step η) → LockedCourier η → Prop
  | still : Turn r none none r
  | raised (e : Event) : Turn r none (some (.raise e)) { r with courier := r.courier.raise e }
  | launched : Turn r none (some .start) { r with courier := r.courier.start }
  | closed : Turn r none (some .close) { r with courier := r.courier.close }
  | joined : Turn r none (some .join) { r with courier := r.courier.join }
  | took (hs : r.stage = .outside) :
    Turn r none (some .take) { r with courier := r.courier.take }
  | started {e : Event} (hs : r.stage = .outside) (hw : r.courier.worker = .holding e)
      (hl : r.deliveryLock = none) : Turn r (some (.started e r.courier.handler)) none
    { r with deliveryLock := some .worker, stage := .entered e }
  | moved {stage : Stage η} (slotLock : Option Holder) (hs : r.stage.Moves stage) :
    Turn r none none { r with stage, slotLock }
  | read {e : Event} (hs : r.stage = .reading e) : Turn r none (some .deliver)
    { r with courier := r.courier.deliver.2, stage := .copied e r.courier.handler }
  | called {e : Event} {h : η} (hs : r.stage = .ready e (some h)) :
    Turn r (some (.called e h)) none { r with stage := .inside e h .none }
  | dropped {e : Event} (hs : r.stage = .ready e none) :
    Turn r (some (.dropped e)) none { r with stage := .leaving }
  | swapped {e : Event} {h : η} {new : Option η} (hs : r.stage = .inside e h (.writing new)) :
    Turn r (some (.replaced .worker new)) (some (.setHandler new))
      { r with courier := r.courier.setHandler new, stage := .inside e h .wrote }
  | finished {e : Event} {h : η} (failure : Option Bytes) (hs : r.stage = .inside e h .none) :
    Turn r (some (.finished e h)) (some (.finish failure))
      { r with courier := (r.courier.finish failure).2, stage := .leaving }
  | left (hs : r.stage = .leaving) :
    Turn r none none { r with deliveryLock := none, stage := .outside }
  | asked {k : Nat} (new : Option η) (hk : r.calls.get? k = none) :
    Turn r none none { r with calls := r.calls.insert k (.asked new) }
  | entered {k : Nat} {new : Option η} (hk : r.calls.get? k = some (.asked new))
      (hl : r.deliveryLock = none) : Turn r none none
    { r with deliveryLock := some (.caller k), calls := r.calls.insert k (.entered new) }
  | shifted {k : Nat} {c c' : Call η} (slotLock : Option Holder) (hk : r.calls.get? k = some c)
      (hc : c'.holds = c.holds) (hw : c'.written? = c.written?) :
    Turn r none none { r with slotLock, calls := r.calls.insert k c' }
  | wrote {k : Nat} {new : Option η} (hk : r.calls.get? k = some (.writing new)) :
    Turn r (some (.replaced (.caller k) new)) (some (.setHandler new))
      { r with courier := r.courier.setHandler new, calls := r.calls.insert k (.wrote new) }
  | released {k : Nat} {new : Option η} (hk : r.calls.get? k = some (.leaving new)) :
    Turn r none none { r with deliveryLock := none, calls := r.calls.insert k (.left new) }
  | returned {k : Nat} {new : Option η} (hk : r.calls.get? k = some (.left new)) :
    Turn r (some (.returned k new)) none { r with calls := r.calls.erase k }

theorem turn_take (r : LockedCourier η) : r.Turn none (Step.take.plain? r) r.take := by
  cases hs : r.stage with
  | outside =>
    have htake : r.take = { r with courier := r.courier.take } := by simp only [take, hs]
    have hplain : Step.take.plain? r = some .take := by simp only [Step.plain?, hs]
    rw [htake, hplain]
    exact .took hs
  | _ =>
    simp only [Step.plain?, take, hs]
    exact .still

theorem turn_work (r : LockedCourier η) :
    r.Turn (Step.work.sight? r) (Step.work.plain? r) r.work.2 := by
  cases hs : r.stage with
  | outside =>
    simp only [Step.sight?, Step.plain?, work, hs]
    cases hw : r.courier.worker <;> cases hl : r.deliveryLock
    case holding.none e => exact .started hs hw hl
    all_goals exact .still
  | entered e =>
    simp only [Step.sight?, Step.plain?, work, hs]
    cases r.slotLock with
    | none => exact .moved _ (hs ▸ .reading e)
    | some _ => exact .still
  | reading e =>
    simp only [Step.sight?, Step.plain?, work, hs]
    exact .read hs
  | copied e slot =>
    simp only [Step.sight?, Step.plain?, work, hs]
    exact .moved none (hs ▸ .ready e slot)
  | ready e slot =>
    cases slot with
    | some h =>
      simp only [Step.sight?, Step.plain?, work, hs]
      exact .called hs
    | none =>
      simp only [Step.sight?, Step.plain?, work, hs]
      exact .dropped hs
  | inside e h swap =>
    cases swap with
    | none =>
      simp only [Step.sight?, Step.plain?, work, hs]
      exact .still
    | asked new =>
      simp only [Step.sight?, Step.plain?, work, hs]
      cases r.slotLock with
      | none => exact .moved _ (hs ▸ .writing e h new)
      | some _ => exact .still
    | writing new =>
      simp only [Step.sight?, Step.plain?, work, hs]
      exact .swapped hs
    | wrote =>
      simp only [Step.sight?, Step.plain?, work, hs]
      exact .moved none (hs ▸ .back e h)
  | leaving =>
    simp only [Step.sight?, Step.plain?, work, hs]
    exact .left hs

theorem turn_replace (r : LockedCourier η) (new : Option η) : r.Turn none none (r.replace new) := by
  unfold replace
  split
  next e h hs => exact .moved r.slotLock (hs ▸ .asked e h new)
  · exact .still

theorem turn_finish (r : LockedCourier η) (failure : Option Bytes) :
    r.Turn ((Step.finish failure).sight? r) ((Step.finish failure).plain? r)
      (r.finish failure).2 := by
  cases hs : r.stage with
  | inside e h swap =>
    cases swap with
    | none =>
      simp only [Step.sight?, Step.plain?, finish, hs]
      exact .finished failure hs
    | asked _ | writing _ | wrote =>
      simp only [Step.sight?, Step.plain?, finish, hs]
      exact .still
  | _ =>
    simp only [Step.sight?, Step.plain?, finish, hs]
    exact .still

theorem turn_call (r : LockedCourier η) (k : Nat) (new : Option η) :
    r.Turn none none (r.call k new) := by
  unfold call
  split
  next hk => exact .asked new hk
  · exact .still

theorem turn_advance (r : LockedCourier η) (k : Nat) :
    r.Turn ((Step.advance k).sight? r) ((Step.advance k).plain? r) (r.advance k) := by
  simp only [Step.sight?, Step.plain?, advance]
  cases hk : r.calls.get? k with
  | none => exact .still
  | some c =>
    cases c with
    | asked new =>
      cases hl : r.deliveryLock with
      | none => exact .entered hk hl
      | some _ => exact .still
    | entered new =>
      cases r.slotLock with
      | none => exact .shifted _ hk rfl rfl
      | some _ => exact .still
    | writing new => exact .wrote hk
    | wrote new => exact .shifted none hk rfl rfl
    | leaving new => exact .released hk
    | left new => exact .returned hk

/-- The list of what a step can do is complete. -/
theorem turn_perform (r : LockedCourier η) (s : Step η) :
    r.Turn (s.sight? r) (s.plain? r) (s.perform r).2 := by
  cases s with
  | raise e => exact .raised e
  | start => exact .launched
  | close => exact .closed
  | join => exact .joined
  | take => exact turn_take r
  | work => exact turn_work r
  | replace new => exact turn_replace r new
  | finish failure => exact turn_finish r failure
  | call k new => exact turn_call r k new
  | advance k => exact turn_advance r k

/-! ### Who has the delivery lock -/

theorem Stage.Fits.congr {stage : Stage η} {c c' : Courier η} (hf : stage.Fits c)
    (hw : c'.worker = c.worker) (hh : c'.handler = c.handler) : stage.Fits c' := by
  cases stage <;> simpa only [Fits, hw, hh] using hf

theorem Stage.Fits.moves {stage stage' : Stage η} {c : Courier η} (hf : stage.Fits c)
    (hm : stage.Moves stage') : stage'.Fits c := by
  cases hm <;> exact hf

theorem Stage.Fits.start {stage : Stage η} {c : Courier η} (hf : stage.Fits c)
    (hc : c.Threaded) : stage.Fits c.start := by
  have hturn := Courier.turn_start c
  generalize c.start = c' at hturn ⊢
  cases hturn with
  | still => exact hf
  | aborted => exact hf.congr rfl rfl
  | launched _ ht =>
    -- A worker that is absent is in no delivery.
    have hw := hc.worker_absent ht
    cases stage with
    | outside => rfl
    | copied e slot | ready e slot => cases slot <;> simp [Fits, hw] at hf
    | _ => simp [Fits, hw] at hf

theorem Stage.Fits.join {stage : Stage η} {c : Courier η} (hf : stage.Fits c) :
    stage.Fits c.join := by
  have hturn := Courier.turn_join c
  generalize c.join = c' at hturn ⊢
  cases hturn with
  | still => exact hf
  | joined => exact hf.congr rfl rfl

theorem given_take {c : Courier η} (hc : c.worker.given = none) : c.take.worker.given = none := by
  unfold Courier.take
  split
  · split <;> first | rfl | exact hc
  all_goals exact hc

/-- The courier does what the stage says, and a thread that is in a delivery or between the two
ends of its call has the delivery lock. -/
structure Safe (r : LockedCourier η) : Prop where
  fits : r.stage.Fits r.courier
  worker_lock : r.stage ≠ .outside → r.deliveryLock = some .worker
  caller_lock : ∀ k c, r.calls.get? k = some c → c.holds → r.deliveryLock = some (.caller k)

variable {r r' : LockedCourier η} {x : Option (Sight η)} {p : Option (Courier.Step η)}

theorem safe_make (name : Bytes) : (make name : LockedCourier η).Safe :=
  ⟨rfl, fun h => absurd rfl h, nofun⟩

namespace Safe

/-- No delivery is under way while another thread has the lock. -/
theorem outside (hs : r.Safe) {k : Nat} {c : Call η} (hk : r.calls.get? k = some c)
    (hc : c.holds) : r.stage = .outside := by
  by_contra ho
  have hlock := hs.caller_lock k c hk hc
  rw [hs.worker_lock ho] at hlock
  cases hlock

/-- A move of the worker within a delivery. -/
theorem inner (hs : r.Safe) (ho : r.stage ≠ .outside) {courier : Courier η} {stage : Stage η}
    {slotLock : Option Holder} (hf : stage.Fits courier) :
    ({ r with courier, stage, slotLock } : LockedCourier η).Safe :=
  ⟨hf, fun _ => hs.worker_lock ho, hs.caller_lock⟩

/-- A move of another thread that neither takes nor gives back the delivery lock. -/
theorem caller (hs : r.Safe) {k : Nat} {c' : Call η} {courier : Courier η}
    {slotLock : Option Holder} (hf : r.stage.Fits courier)
    (hc : c'.holds → ∃ c, r.calls.get? k = some c ∧ c.holds) :
    ({ r with courier, slotLock, calls := r.calls.insert k c' } : LockedCourier η).Safe := by
  refine ⟨hf, hs.worker_lock, fun j c hj hh => ?_⟩
  rw [Table.get?_insert] at hj
  split at hj
  next hjk =>
    cases hj
    obtain ⟨c, hk, hc⟩ := hc hh
    exact hjk ▸ hs.caller_lock k c hk hc
  · exact hs.caller_lock j c hj hh

/-- Every step keeps the locks in order. -/
theorem next (hs : r.Safe) (hc : r.courier.Threaded) (ht : r.Turn x p r') : r'.Safe := by
  have hfits := hs.fits
  cases ht with
  | still => exact hs
  | raised e => exact ⟨hfits.congr rfl rfl, hs.worker_lock, hs.caller_lock⟩
  | launched => exact ⟨hfits.start hc, hs.worker_lock, hs.caller_lock⟩
  | closed => exact ⟨hfits.congr rfl rfl, hs.worker_lock, hs.caller_lock⟩
  | joined => exact ⟨hfits.join, hs.worker_lock, hs.caller_lock⟩
  | took ho =>
    refine ⟨?_, hs.worker_lock, hs.caller_lock⟩
    rw [ho] at hfits
    show r.stage.Fits _
    rw [ho]
    exact given_take hfits
  | started ho hw hl =>
    refine ⟨hw, fun _ => rfl, fun k c hk hc => ?_⟩
    have hlock := hs.caller_lock k c hk hc
    rw [hl] at hlock
    cases hlock
  | moved slotLock hm => exact hs.inner hm.ne_outside (hfits.moves hm)
  | @read e hst =>
    refine hs.inner (by simp [hst]) ?_
    rw [hst] at hfits
    have hw : r.courier.worker = .holding e := hfits
    cases hh : r.courier.handler <;> simp [Stage.Fits, Courier.deliver, hw, hh]
  | called hst =>
    rw [hst] at hfits
    exact hs.inner (by simp [hst]) hfits.2
  | dropped hst =>
    rw [hst] at hfits
    exact hs.inner (by simp [hst]) hfits.2
  | swapped hst =>
    rw [hst] at hfits
    exact hs.inner (by simp [hst]) hfits
  | @finished e h failure hst =>
    rw [hst] at hfits
    refine hs.inner (by simp [hst]) ?_
    have hw : r.courier.worker = .delivering e h := hfits
    simp only [Stage.Fits, Courier.finish, hw]
  | left hst =>
    rw [hst] at hfits
    have hlock := hs.worker_lock (by simp [hst])
    refine ⟨?_, fun h => absurd rfl h, fun k c hk hc => ?_⟩
    · have hw : r.courier.worker = .idle := hfits
      simp only [Stage.Fits, hw, Courier.Worker.given]
    · have hlock' := hs.caller_lock k c hk hc
      rw [hlock] at hlock'
      cases hlock'
  | asked new hk => exact hs.caller hfits (by simp [Call.holds])
  | @entered k new hk hl =>
    have ho : r.stage = .outside := by
      by_contra ho
      have hlock := hs.worker_lock ho
      rw [hl] at hlock
      cases hlock
    refine ⟨hfits, fun h => absurd ho h, fun j c hj hc => ?_⟩
    rw [Table.get?_insert] at hj
    split at hj
    next hjk => rw [hjk]
    · have hlock := hs.caller_lock j c hj hc
      rw [hl] at hlock
      cases hlock
  | shifted slotLock hk hc hw => exact hs.caller hfits fun h => ⟨_, hk, hc ▸ h⟩
  | @wrote k new hk =>
    refine hs.caller ?_ fun _ => ⟨_, hk, rfl⟩
    have ho := hs.outside hk rfl
    rw [ho] at hfits ⊢
    exact hfits
  | @released k new hk =>
    have ho := hs.outside hk rfl
    refine ⟨hfits, fun h => absurd ho h, fun j c hj hc => ?_⟩
    rw [Table.get?_insert] at hj
    split at hj
    next hjk =>
      cases hj
      cases hc
    next hjk =>
      have hlock := hs.caller_lock j c hj hc
      rw [hs.caller_lock k _ hk rfl] at hlock
      cases hlock
      exact absurd rfl hjk
  | returned hk =>
    refine ⟨hfits, hs.worker_lock, fun j c hj hc => ?_⟩
    rw [Table.get?_erase] at hj
    split at hj
    · cases hj
    · exact hs.caller_lock j c hj hc

end Safe

/-! ### What is seen -/

/-- What a courier shows: the handler in its slot, and where a delivery is. -/
structure View (η : Type) where
  slot : Option η
  phase : Phase η

def view (r : LockedCourier η) : View η := ⟨r.courier.handler, r.stage.phase⟩

/-- What can be seen in which view, and the view after it. A delivery calls the handler that
was in the slot when it started; other threads write the slot between deliveries only. -/
inductive Shows : View η → Sight η → View η → Prop
  | started (slot : Option η) (e : Event) :
    Shows ⟨slot, .between⟩ (.started e slot) ⟨slot, .begun e⟩
  | called (e : Event) (h : η) : Shows ⟨some h, .begun e⟩ (.called e h) ⟨some h, .running e h⟩
  | dropped (e : Event) : Shows ⟨none, .begun e⟩ (.dropped e) ⟨none, .between⟩
  | swapped (slot : Option η) (e : Event) (h : η) (new : Option η) :
    Shows ⟨slot, .running e h⟩ (.replaced .worker new) ⟨new, .running e h⟩
  | finished (slot : Option η) (e : Event) (h : η) :
    Shows ⟨slot, .running e h⟩ (.finished e h) ⟨slot, .between⟩
  | replaced (slot : Option η) (k : Nat) (new : Option η) :
    Shows ⟨slot, .between⟩ (.replaced (.caller k) new) ⟨new, .between⟩
  | returned (v : View η) (k : Nat) (new : Option η) : Shows v (.returned k new) v

theorem view_eq {stage : Stage η} (hs : r.stage = stage) :
    r.view = ⟨r.courier.handler, stage.phase⟩ := by
  rw [view, hs]

/-- A step that shows something changes the view as it shows, and any other step leaves it. -/
theorem Turn.shows (ht : r.Turn x p r') (hs : r.Safe) :
    x.elim (r'.view = r.view) fun x => Shows r.view x r'.view := by
  have hfits := hs.fits
  cases ht with
  | still | raised | closed | asked | entered | shifted | released => rfl
  | launched => exact congrArg (View.mk · r.stage.phase) r.courier.handler_start
  | joined => exact congrArg (View.mk · r.stage.phase) r.courier.handler_join
  | took => exact congrArg (View.mk · r.stage.phase) r.courier.handler_take
  | @started e ho =>
    rw [view_eq ho]
    exact .started _ e
  | moved slotLock hm => exact congrArg (View.mk r.courier.handler) hm.phase_eq
  | read hst =>
    show View.mk _ _ = _
    rw [view_eq hst, Courier.handler_deliver]
    rfl
  | @called e h hst =>
    rw [hst] at hfits
    rw [view_eq hst]
    show Shows ⟨r.courier.handler, _⟩ _ ⟨r.courier.handler, _⟩
    rw [← hfits.1]
    exact .called e h
  | @dropped e hst =>
    rw [hst] at hfits
    rw [view_eq hst]
    show Shows ⟨r.courier.handler, _⟩ _ ⟨r.courier.handler, _⟩
    rw [← hfits.1]
    exact .dropped e
  | @swapped e h new hst =>
    rw [view_eq hst]
    exact .swapped _ e h new
  | @finished e h failure hst =>
    rw [view_eq hst]
    show Shows _ _ ⟨(r.courier.finish failure).2.handler, _⟩
    rw [Courier.handler_finish]
    exact .finished _ e h
  | left hst =>
    rw [view_eq hst]
    rfl
  | @wrote k new hk =>
    have ho := hs.outside hk rfl
    rw [view_eq ho]
    show Shows _ _ ⟨new, r.stage.phase⟩
    rw [ho]
    exact .replaced _ k new
  | @returned k new => exact .returned _ k new

end Interledger.LockedCourier
