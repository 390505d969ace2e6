import Interledger.Hub
import Interledger.Proofs.Ledger.Runs

/-! How a hub brings notices to their listeners. Publishing is one fold over the callbacks
of the ledger: listeners that are no adaptors are told exactly theirs, every adaptor hears
exactly its own, both in order, and the ledger is left quiet. -/

namespace Interledger

/-- The callbacks that go to listeners that are no adaptors, with their names. -/
def outsideCalls (calls : List (Listener × Notice)) : List (Bytes × Notice) :=
  calls.filterMap fun c =>
    match c.1 with
    | .outside name => some (name, c.2)
    | .adaptor _ => none

theorem outsideCalls_append (calls calls' : List (Listener × Notice)) :
    outsideCalls (calls ++ calls') = outsideCalls calls ++ outsideCalls calls' :=
  List.filterMap_append

theorem received_outsideCalls (name : Bytes) (calls : List (Listener × Notice)) :
    ((outsideCalls calls).filter (·.1 = name)).map (·.2) =
      (Listener.outside name).received calls := by
  induction calls with
  | nil => rfl
  | cons c calls ih =>
    obtain ⟨w, n⟩ := c
    cases w with
    | adaptor k => simpa [outsideCalls, Listener.received] using ih
    | outside m =>
      by_cases hm : m = name
      · simpa [outsideCalls, Listener.received, hm] using ih
      · simpa [outsideCalls, Listener.received, hm] using ih

namespace Hub

variable {η : Type}

/-- A hub whose ledger has nothing left to tell or to log. -/
def Quiet (h : Hub η) : Prop := h.ledger.quiet = h.ledger

theorem Quiet.notices_eq {h : Hub η} (hq : h.Quiet) : h.ledger.notices = [] :=
  (congrArg Ledger.notices hq).symm

theorem Quiet.log_eq {h : Hub η} (hq : h.Quiet) : h.ledger.log = [] :=
  (congrArg Ledger.log hq).symm

/-- One callback. -/
def bring (h : Hub η) (c : Listener × Notice) : Hub η :=
  match c.1 with
  | .adaptor k => h.updateAdaptor k (·.hear c.2)
  | .outside name => { h with told := h.told ++ [(name, c.2)] }

theorem ledger_updateAdaptor (h : Hub η) (k : Nat) (f : Adaptor η → List Log.Line × Adaptor η) :
    (h.updateAdaptor k f).ledger = h.ledger := by
  unfold updateAdaptor
  split <;> rfl

theorem told_updateAdaptor (h : Hub η) (k : Nat) (f : Adaptor η → List Log.Line × Adaptor η) :
    (h.updateAdaptor k f).told = h.told := by
  unfold updateAdaptor
  split <;> rfl

theorem get?_updateAdaptor (h : Hub η) (k j : Nat) (f : Adaptor η → List Log.Line × Adaptor η) :
    (h.updateAdaptor k f).adaptors.get? j =
      if j = k then (h.adaptors.get? j).map fun a => (f a).2 else h.adaptors.get? j := by
  unfold updateAdaptor
  cases hk : h.adaptors.get? k with
  | none =>
    by_cases hj : j = k
    · rw [if_pos hj, hj, hk]
      rfl
    · rw [if_neg hj]
  | some a =>
    show (h.adaptors.modify k fun _ => (f a).2).get? j = _
    rw [Table.get?_modify]
    by_cases hj : j = k
    · rw [if_pos hj, if_pos hj, hj, hk]
      rfl
    · rw [if_neg hj, if_neg hj]

theorem ledger_bring (h : Hub η) (c : Listener × Notice) : (h.bring c).ledger = h.ledger := by
  unfold bring
  split
  · exact ledger_updateAdaptor ..
  · rfl

theorem ledger_foldl_bring (calls : List (Listener × Notice)) (h : Hub η) :
    (calls.foldl bring h).ledger = h.ledger := by
  induction calls generalizing h with
  | nil => rfl
  | cons c calls ih => exact (ih _).trans (ledger_bring h c)

theorem announce_eq (h : Hub η) (n : Notice) :
    h.announce n = (h.ledger.sessions.map fun s => (s.listener, n)).foldl bring h := by
  rw [List.foldl_map]
  rfl

/-- Publishing makes the callbacks of the ledger one after the other. -/
theorem publish_eq (h : Hub η) : h.publish =
    (h.ledger.callbacks.foldl bring { h with ledger := h.ledger.quiet }).write h.ledger.log := by
  have hfold : ∀ (ns : List Notice) (g : Hub η), g.ledger.sessions = h.ledger.sessions →
      ns.foldl announce g =
        (ns.flatMap fun n => h.ledger.sessions.map fun s => (s.listener, n)).foldl bring g := by
    intro ns
    induction ns with
    | nil => exact fun g _ => rfl
    | cons n ns ih =>
      intro g hg
      rw [List.foldl_cons, List.flatMap_cons, List.foldl_append, announce_eq, hg]
      exact ih _ (by rw [ledger_foldl_bring, hg])
  exact congrArg (fun g : Hub η => g.write h.ledger.log)
    (hfold h.ledger.notices { h with ledger := h.ledger.quiet } rfl)

@[simp] theorem ledger_publish (h : Hub η) : h.publish.ledger = h.ledger.quiet := by
  rw [publish_eq]
  exact ledger_foldl_bring ..

theorem publish_of_quiet {h : Hub η} (hq : h.Quiet) : h.publish = h := by
  rw [publish_eq, Ledger.callbacks, hq.notices_eq, hq.log_eq]
  show { h with ledger := h.ledger.quiet, log := h.log ++ [] } = h
  rw [hq, List.append_nil]

theorem told_publish (h : Hub η) : h.publish.told = h.told ++ outsideCalls h.ledger.callbacks := by
  have hfold : ∀ (calls : List (Listener × Notice)) (g : Hub η),
      (calls.foldl bring g).told = g.told ++ outsideCalls calls := by
    intro calls
    induction calls with
    | nil => exact fun g => (List.append_nil _).symm
    | cons c calls ih =>
      intro g
      rw [List.foldl_cons, ih]
      obtain ⟨w, n⟩ := c
      cases w with
      | adaptor k =>
        show (g.updateAdaptor k _).told ++ _ = _
        rw [told_updateAdaptor]
        rfl
      | outside name =>
        show (g.told ++ [(name, n)]) ++ _ = _
        rw [List.append_assoc]
        rfl
  rw [publish_eq]
  exact hfold _ _

/-- An adaptor hears its own callbacks in order, and publishing changes it in no other way. -/
theorem get?_adaptors_publish (h : Hub η) (k : Nat) : h.publish.adaptors.get? k =
    (h.adaptors.get? k).map fun a =>
      ((Listener.adaptor k).received h.ledger.callbacks).foldl (fun a n => (a.hear n).2) a := by
  have hfold : ∀ (calls : List (Listener × Notice)) (g : Hub η),
      (calls.foldl bring g).adaptors.get? k = (g.adaptors.get? k).map fun a =>
        ((Listener.adaptor k).received calls).foldl (fun a n => (a.hear n).2) a := by
    intro calls
    induction calls with
    | nil => exact fun g => Option.map_id'.symm
    | cons c calls ih =>
      intro g
      rw [List.foldl_cons, ih]
      obtain ⟨w, n⟩ := c
      by_cases hw : w = .adaptor k
      · subst hw
        show ((g.updateAdaptor k _).adaptors.get? k).map _ = _
        rw [get?_updateAdaptor, if_pos rfl, Option.map_map]
        simp only [Listener.received, List.filter_cons, decide_true, if_true, List.map_cons,
          List.foldl_cons]
        rfl
      · have hg : (g.bring (w, n)).adaptors.get? k = g.adaptors.get? k := by
          cases w with
          | adaptor j =>
            show (g.updateAdaptor j _).adaptors.get? k = _
            rw [get?_updateAdaptor, if_neg fun hk => hw (by rw [hk])]
          | outside name => rfl
        rw [hg]
        simp only [Listener.received, List.filter_cons, decide_eq_true_eq, if_neg hw]
  rw [publish_eq]
  exact hfold _ _

end Hub

end Interledger
