import Interledger.Event.Courier
import Interledger.Table

/-! A courier among threads that replace its handler, with the two locks that keep them
apart.

The worker has the delivery lock for a whole delivery, from before it reads the slot until
the handler has returned, and the slot lock while it reads. A call from another thread takes
both, and so waits for the delivery under way. A call from inside a handler runs on the
worker, which has the delivery lock already, and takes the slot lock alone. Who finds a lock
taken makes no move. -/

namespace Interledger

open Log

namespace LockedCourier

/-- Who can have a lock: the worker, or another thread. -/
inductive Holder where
  | worker
  | caller (k : Nat)
  deriving DecidableEq

/-- How far a running handler has come with putting another in its place. -/
inductive Swap (η : Type) where
  | none
  | asked (new : Option η)
  | writing (new : Option η)
  | wrote

/-- Where the worker is in a delivery. What it has read from the slot is a copy. -/
inductive Stage (η : Type) where
  | outside
  | entered (e : Event)
  | reading (e : Event)
  | copied (e : Event) (slot : Option η)
  | ready (e : Event) (slot : Option η)
  | inside (e : Event) (handler : η) (swap : Swap η)
  | leaving

/-- Where a call from another thread is; when it has left both locks it is about to return. -/
inductive Call (η : Type) where
  | asked (new : Option η)
  | entered (new : Option η)
  | writing (new : Option η)
  | wrote (new : Option η)
  | leaving (new : Option η)
  | left (new : Option η)

end LockedCourier

structure LockedCourier (η : Type) where
  courier : Courier η
  stage : LockedCourier.Stage η
  deliveryLock : Option LockedCourier.Holder
  slotLock : Option LockedCourier.Holder
  /-- The calls under way, by their threads. -/
  calls : Table Nat (LockedCourier.Call η)

namespace LockedCourier

variable {η : Type}

def make (name : Bytes) : LockedCourier η := ⟨.make name, .outside, none, none, .empty⟩

def raise (r : LockedCourier η) (e : Event) : LockedCourier η :=
  { r with courier := r.courier.raise e }

/-- Launching the worker and taking its thread are one step: a call that replaces the handler
tells by that thread whether it runs on the worker, which is right only after both. -/
def start (r : LockedCourier η) : LockedCourier η := { r with courier := r.courier.start }

def close (r : LockedCourier η) : LockedCourier η := { r with courier := r.courier.close }

def join (r : LockedCourier η) : LockedCourier η := { r with courier := r.courier.join }

/-! ### The worker -/

/-- Between deliveries the worker takes an event, without a lock. -/
def take (r : LockedCourier η) : LockedCourier η :=
  match r.stage with
  | .outside => { r with courier := r.courier.take }
  | _ => r

/-- The next move of the worker in a delivery. -/
def work (r : LockedCourier η) : List Line × LockedCourier η :=
  match r.stage with
  | .outside =>
    match r.courier.worker, r.deliveryLock with
    | .holding e, none => ([], { r with deliveryLock := some .worker, stage := .entered e })
    | _, _ => ([], r)
  | .entered e =>
    match r.slotLock with
    | none => ([], { r with slotLock := some .worker, stage := .reading e })
    | some _ => ([], r)
  | .reading e =>
    ([], { r with courier := r.courier.deliver.2, stage := .copied e r.courier.handler })
  | .copied e slot => ([], { r with slotLock := none, stage := .ready e slot })
  | .ready e (some h) => ([], { r with stage := .inside e h .none })
  | .ready e none => ([r.courier.dropLine e], { r with stage := .leaving })
  | .inside _ _ .none => ([], r)
  | .inside e h (.asked new) =>
    match r.slotLock with
    | none => ([], { r with slotLock := some .worker, stage := .inside e h (.writing new) })
    | some _ => ([], r)
  | .inside e h (.writing new) =>
    ([], { r with courier := r.courier.setHandler new, stage := .inside e h .wrote })
  | .inside e h .wrote => ([], { r with slotLock := none, stage := .inside e h .none })
  | .leaving => ([], { r with deliveryLock := none, stage := .outside })

/-- A running handler begins to put another in its place. The call is known to come from the
worker, whose thread the courier has had since the one step that launched it. -/
def replace (r : LockedCourier η) (new : Option η) : LockedCourier η :=
  match r.stage with
  | .inside e h .none => { r with stage := .inside e h (.asked new) }
  | _ => r

/-- A running handler returns, or fails. -/
def finish (r : LockedCourier η) (failure : Option Bytes) : List Line × LockedCourier η :=
  match r.stage with
  | .inside _ _ .none =>
    ((r.courier.finish failure).1,
      { r with courier := (r.courier.finish failure).2, stage := .leaving })
  | _ => ([], r)

/-! ### Other threads -/

/-- A thread with no call under way begins to put another handler in the slot. -/
def call (r : LockedCourier η) (k : Nat) (new : Option η) : LockedCourier η :=
  match r.calls.get? k with
  | none => { r with calls := r.calls.insert k (.asked new) }
  | some _ => r

/-- The next move of a thread in its call. -/
def advance (r : LockedCourier η) (k : Nat) : LockedCourier η :=
  match r.calls.get? k with
  | none => r
  | some (.asked new) =>
    match r.deliveryLock with
    | none =>
      { r with deliveryLock := some (.caller k), calls := r.calls.insert k (.entered new) }
    | some _ => r
  | some (.entered new) =>
    match r.slotLock with
    | none => { r with slotLock := some (.caller k), calls := r.calls.insert k (.writing new) }
    | some _ => r
  | some (.writing new) =>
    { r with courier := r.courier.setHandler new, calls := r.calls.insert k (.wrote new) }
  | some (.wrote new) => { r with slotLock := none, calls := r.calls.insert k (.leaving new) }
  | some (.leaving new) => { r with deliveryLock := none, calls := r.calls.insert k (.left new) }
  | some (.left _) => { r with calls := r.calls.erase k }

end LockedCourier

end Interledger
