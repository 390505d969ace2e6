import Interledger.Proofs.Hub.Sightings

/-! What subscriptions are for.

The subscriptions of an adaptor are those that were made in the run, and a transfer that is
within several of them concerns it no more than once. So a subscription to what an earlier one
covers, or to the account itself, makes no difference: two runs that differ in such
subscriptions go on alike, and every adaptor raises the same events in both. -/

namespace Interledger

namespace Hub

variable {η : Type} {h h' g : Hub η} {now : Int} {k : Nat}

/-! ### Subscriptions of a run -/

section
variable {info : LedgerInfo} {l : Ledger} {steps : List (Int × Step η)} {p : Address}

/-- Every adaptor has a number that was used before, and stands for one account. -/
def Numbered (h : Hub η) : Prop :=
  ∀ k a, h.adaptors.get? k = some a → k < h.nextKey ∧ a.account.isPrefix = false

theorem numbered_run (hl : Ledger.make info = .ok l) (steps : List (Int × Step η)) :
    (run l steps).Numbered := by
  induction steps using List.reverseRecOn with
  | nil => exact fun k a ha => nomatch ha
  | append_singleton steps s ih =>
    have hq := quiet_run hl steps
    have hsound := sound_run hl steps
    intro k b hb
    rw [run_concat] at hb ⊢
    rcases cases_of_get?_perform hq hsound hb with ⟨account, hs, rfl, hm⟩ | ⟨a, ha, rfl⟩
    · obtain ⟨hleaf, rfl⟩ := make_eq_ok hm
      have hopened : (Step.openAdaptor account : Step η).opened = 1 := if_neg (by simp [hleaf])
      rw [nextKey_eq hq hsound, hs, hopened]
      exact ⟨Nat.lt_succ_self _, hleaf⟩
    · obtain ⟨hk, hleaf⟩ := ih k a ha
      rw [account_own]
      exact ⟨hk.trans_le (nextKey_perform hq hsound s.1 s.2), hleaf⟩

/-- An adaptor has been told in a run to subscribe to an address. -/
def Subscribed (l : Ledger) (steps : List (Int × Step η)) (k : Nat) (p : Address) : Prop :=
  ∃ pre now post, steps = pre ++ (now, .subscribe k p) :: post ∧
    ∃ a, (run l pre).adaptors.get? k = some a

theorem subscribed_concat {s : Int × Step η} : Subscribed l (steps ++ [s]) k p ↔
    Subscribed l steps k p ∨
      s.2 = .subscribe k p ∧ ∃ a, (run l steps).adaptors.get? k = some a := by
  constructor
  · rintro ⟨pre, now, post, heq, ha⟩
    rcases List.eq_nil_or_concat' post with rfl | ⟨post, s', rfl⟩
    · obtain ⟨rfl, hs⟩ := List.append_inj' heq rfl
      cases hs
      exact .inr ⟨rfl, ha⟩
    · rw [← List.cons_append, ← List.append_assoc] at heq
      obtain ⟨rfl, -⟩ := List.append_inj' heq rfl
      exact .inl ⟨pre, now, post, rfl, ha⟩
  · rintro (⟨pre, now, post, rfl, ha⟩ | ⟨hs, ha⟩)
    · exact ⟨pre, now, post ++ [s], by simp, ha⟩
    · exact ⟨steps, s.1, [], by rw [← hs], ha⟩

theorem lt_nextKey_of_subscribed (hl : Ledger.make info = .ok l) (h : Subscribed l steps k p) :
    k < (run l steps).nextKey := by
  induction steps using List.reverseRecOn with
  | nil =>
    obtain ⟨pre, now, post, heq, -⟩ := h
    simp at heq
  | append_singleton steps s ih =>
    have hnext := nextKey_perform (quiet_run hl steps) (sound_run hl steps) s.1 s.2
    rw [run_concat]
    rcases subscribed_concat.1 h with h | ⟨-, a, ha⟩
    · exact (ih h).trans_le hnext
    · exact ((numbered_run hl steps k a ha).1).trans_le hnext

/-- The subscriptions of an adaptor are those that were made in the run. -/
theorem mem_subscriptions_iff (hl : Ledger.make info = .ok l) {a : Adaptor η}
    (ha : (run l steps).adaptors.get? k = some a) :
    p ∈ a.subscriptions ↔ Subscribed l steps k p := by
  induction steps using List.reverseRecOn generalizing a with
  | nil => cases ha
  | append_singleton steps s ih =>
    have hq := quiet_run hl steps
    have hsound := sound_run hl steps
    rw [run_concat] at ha
    rw [subscribed_concat]
    rcases cases_of_get?_perform hq hsound ha with ⟨account, hs, rfl, hm⟩ | ⟨b, hb, rfl⟩
    · -- A new adaptor has a number for which no earlier step was.
      obtain ⟨-, rfl⟩ := make_eq_ok hm
      rw [hs]
      constructor
      · exact nofun
      · rintro (hsub | ⟨hs', -⟩)
        · exact absurd (lt_nextKey_of_subscribed hl hsub) (Nat.lt_irrefl _)
        · cases hs'
    · have hold : p ∈ b.subscriptions ↔ Subscribed l steps k p := ih hb
      rw [mem_subscriptions_own]
      exact or_congr hold ⟨fun h => ⟨h, b, hb⟩, And.left⟩

end

end Hub

/-! ### Adaptors that are alike -/

/-- Two adaptors that differ in subscriptions only, and in none that matters. -/
def Adaptor.Alike {η : Type} (a b : Adaptor η) : Prop :=
  ∃ subscriptions, b = { a with subscriptions } ∧
    ∀ t, ({ a with subscriptions } : Adaptor η).concerns t ↔ a.concerns t

namespace Adaptor

variable {η : Type} {a b : Adaptor η}

theorem Alike.refl (a : Adaptor η) : Alike a a := ⟨a.subscriptions, rfl, fun _ => .rfl⟩

/-- What does not look at the subscriptions is the same for both. -/
theorem Alike.eq_of_rel {x y : Option (Adaptor η)} (hxy : Option.Rel Alike x y) {β : Type}
    (f : Option (Adaptor η) → β)
    (hf : ∀ (a : Adaptor η) subscriptions, f (some { a with subscriptions }) = f (some a)) :
    f y = f x := by
  cases hxy with
  | none => rfl
  | some hab =>
    obtain ⟨subs, rfl, -⟩ := hab
    exact hf _ subs

theorem Alike.news_eq (hab : Alike a b) : b.news = a.news := by
  obtain ⟨subs, rfl, hsubs⟩ := hab
  have hconcerns : ∀ t, ({ a with subscriptions := subs } : Adaptor η).concerns t = a.concerns t :=
    fun t => Bool.eq_iff_iff.2 (hsubs t)
  funext n
  cases n with
  | message m => rfl
  | _ => simp only [news, hconcerns]

theorem Alike.hears (hab : Alike a b) (ns : List Notice) : Alike (a.hears ns) (b.hears ns) := by
  have hnews := hab.news_eq
  obtain ⟨subs, rfl, hsubs⟩ := hab
  refine ⟨subs, ?_, hsubs⟩
  rw [Adaptor.hears, hnews]
  rfl

/-- A subscription concerns an adaptor with what it covers. -/
theorem concerns_subscribe {s : Address} {t : Transfer} : (a.subscribe s).2.concerns t ↔
    a.concerns t ∨ s.covers t.sender ∨ s.covers t.receiver := by
  obtain ⟨subs, heq, hsubs⟩ := a.subscribe_eq s
  rw [heq, concerns_iff, concerns_iff]
  simp only [hsubs]
  constructor
  · rintro (hr | hs | ⟨p, hp | rfl, hc⟩)
    · exact .inl (.inl hr)
    · exact .inl (.inr (.inl hs))
    · exact .inl (.inr (.inr ⟨p, hp, hc⟩))
    · exact .inr hc
  · rintro ((hr | hs | ⟨p, hp, hc⟩) | hc)
    · exact .inl hr
    · exact .inr (.inl hs)
    · exact .inr (.inr ⟨p, .inl hp, hc⟩)
    · exact .inr (.inr ⟨s, .inr rfl, hc⟩)

theorem Alike.subscribe (hab : Alike a b) (s : Address) :
    Alike (a.subscribe s).2 (b.subscribe s).2 := by
  have hconcerns : ∀ t, (b.subscribe s).2.concerns t ↔ (a.subscribe s).2.concerns t := by
    intro t
    obtain ⟨subs, rfl, hsubs⟩ := hab
    rw [concerns_subscribe, concerns_subscribe, hsubs]
  obtain ⟨subsa, ha, -⟩ := a.subscribe_eq s
  obtain ⟨subsb, hb, -⟩ := b.subscribe_eq s
  obtain ⟨subs, rfl, -⟩ := hab
  rw [ha, hb] at hconcerns ⊢
  exact ⟨subsb, rfl, hconcerns⟩

/-- A subscription adds nothing that covers no more than an earlier one, or than the account. -/
theorem Alike.subscribe_right (hab : Alike a b) {s : Address} (hleaf : b.account.isPrefix = false)
    (hs : s = b.account ∨ ∃ p ∈ b.subscriptions, p.covers s) : Alike a (b.subscribe s).2 := by
  have hconcerns : ∀ t, (b.subscribe s).2.concerns t ↔ b.concerns t := by
    intro t
    rw [concerns_subscribe]
    refine ⟨fun h => h.elim id fun hc => concerns_iff.2 ?_, .inl⟩
    rcases hs with rfl | ⟨p, hp, hcover⟩
    · rcases hc with hc | hc
      · exact .inr (.inl (Address.eq_of_covers hleaf hc).symm)
      · exact .inl (Address.eq_of_covers hleaf hc).symm
    · exact .inr (.inr ⟨p, hp, hc.imp (Address.covers_trans hcover) (Address.covers_trans hcover)⟩)
  obtain ⟨subs', hb, -⟩ := b.subscribe_eq s
  obtain ⟨subs, rfl, hsubs⟩ := hab
  rw [hb] at hconcerns ⊢
  exact ⟨subs', rfl, fun t => (hconcerns t).trans (hsubs t)⟩

end Adaptor

namespace Hub

variable {η : Type} {h h' g : Hub η} {now : Int} {k : Nat}

/-! ### Hubs that are alike -/

/-- Two hubs that differ in subscriptions that do not matter, and in the log. -/
structure Alike (h g : Hub η) : Prop where
  ledger : g.ledger = h.ledger
  nextKey : g.nextKey = h.nextKey
  answers : g.answers = h.answers
  told : g.told = h.told
  adaptor : ∀ k, Option.Rel Adaptor.Alike (h.adaptors.get? k) (g.adaptors.get? k)

namespace Alike

theorem refl (h : Hub η) : h.Alike h := by
  refine ⟨rfl, rfl, rfl, rfl, fun k => ?_⟩
  cases h.adaptors.get? k with
  | none => exact .none
  | some a => exact .some (.refl a)

theorem waiting_eq (hg : h.Alike g) (k : Nat) : g.waiting k = h.waiting k :=
  Adaptor.Alike.eq_of_rel (hg.adaptor k) (·.elim [] (·.courier.queue.events)) fun _ _ => rfl

theorem takes_eq (hg : h.Alike g) (m : Message) : g.takes m = h.takes m := by
  funext w
  cases w with
  | adaptor k => exact Adaptor.Alike.eq_of_rel (hg.adaptor k) (·.any (·.accepts m)) fun _ _ => rfl
  | outside name => rw [takes, takes, hg.answers]

theorem call?_eq (hg : h.Alike g) (s : Step η) : s.call? g = s.call? h := by
  cases s with
  | connect j | fireTimer j =>
    have hj := hg.adaptor j
    simp only [Step.call?]
    generalize h.adaptors.get? j = x at hj ⊢
    generalize g.adaptors.get? j = y at hj ⊢
    cases hj with
    | none => rfl
    | some hab =>
      obtain ⟨subs, rfl, -⟩ := hab
      rfl
  | disconnect j | sendMessage j m | sendTransfer j t | rejectTransfer j t reason
  | fulfillCondition j id f =>
    have hj := hg.adaptor j
    simp only [Step.call?, acting?, hg.takes_eq]
    generalize h.adaptors.get? j = x at hj ⊢
    generalize g.adaptors.get? j = y at hj ⊢
    cases hj with
    | none => rfl
    | @some a b hab =>
      obtain ⟨subs, rfl, -⟩ := hab
      by_cases hc : a.connected
      · simp only [Option.filter_some, hc, if_true]
        rfl
      · simp only [Option.filter_some, hc]
        rfl
  | _ => rfl

theorem heard_eq (hg : h.Alike g) (now : Int) (k : Nat) (s : Step η) :
    s.heard g now k = s.heard h now k := by
  rw [Step.heard, Step.heard, hg.call?_eq, hg.ledger]

theorem tend_eq (hg : h.Alike g) (now : Int) (s : Step η) (o : Owner) (x : Alarm) :
    s.tend g now o x = s.tend h now o x := by
  cases s with
  | sendTransfer j t =>
    have harms : g.arms? now j t = h.arms? now j t := by
      rw [arms?, arms?, hg.call?_eq, hg.ledger]
    cases o with
    | ledger => rfl
    | adaptor k => simp only [Step.tend, harms]
  | _ => cases o <;> rfl

theorem own (hg : h.Alike g) {a b : Adaptor η} (hab : a.Alike b) (now : Int) (k : Nat)
    (s : Step η) : (s.own h now k a).Alike (s.own g now k b) := by
  have htend := hg.tend_eq now s (.adaptor k)
  cases s with
  | subscribe j s =>
    simp only [Step.own]
    split
    · exact hab.subscribe s
    · exact hab
  | connect j =>
    obtain ⟨subs, rfl, hsubs⟩ := hab
    simp only [Step.own, hg.ledger]
    split
    · split
      · exact ⟨subs, rfl, hsubs⟩
      · exact ⟨subs, rfl, hsubs⟩
    · exact ⟨subs, rfl, hsubs⟩
  | setHandler | disconnect | takeEvent | deliverEvent | finishEvent | closeCourier =>
    obtain ⟨subs, rfl, hsubs⟩ := hab
    simp only [Step.own]
    split
    · exact ⟨subs, rfl, hsubs⟩
    · exact ⟨subs, rfl, hsubs⟩
  | _ =>
    obtain ⟨subs, rfl, hsubs⟩ := hab
    exact ⟨subs, by simp only [Step.own, htend], hsubs⟩

theorem turn (hg : h.Alike g) (now : Int) (k : Nat) (s : Step η) :
    Option.Rel Adaptor.Alike (s.turn h now k (h.adaptors.get? k))
      (s.turn g now k (g.adaptors.get? k)) := by
  have hk := hg.adaptor k
  generalize h.adaptors.get? k = x at hk
  generalize g.adaptors.get? k = y at hk
  cases s with
  | openAdaptor account =>
    simp only [Step.turn, hg.nextKey]
    split
    · cases Adaptor.make account with
      | ok a => exact .some (.refl a)
      | error e => exact hk
    · exact hk
  | remove j =>
    simp only [Step.turn]
    split
    · exact .none
    · exact hk
  | _ =>
    cases hk with
    | none => exact .none
    | some hab =>
      refine .some ?_
      rw [hg.heard_eq]
      exact hg.own (hab.hears _) now k _

/-- What is alike stays so with every step. -/
theorem perform (hg : h.Alike g) (hq : h.Quiet) (hs : h.ledger.Sound) (now : Int) (s : Step η) :
    (s.perform now h).2.Alike (s.perform now g).2 := by
  have hq' : g.Quiet := by rw [Quiet, hg.ledger]; exact hq
  have hs' : g.ledger.Sound := hg.ledger ▸ hs
  refine ⟨?_, ?_, ?_, ?_, fun k => ?_⟩
  · rw [(perform_effect hq now s).ledger_eq, (perform_effect hq' now s).ledger_eq, hg.call?_eq,
      hg.ledger]
  · rw [nextKey_eq hq hs, nextKey_eq hq' hs', hg.nextKey]
  · rw [answers_eq hq hs, answers_eq hq' hs', hg.answers]
  · rw [(perform_effect hq now s).told_eq, (perform_effect hq' now s).told_eq, hg.call?_eq,
      hg.ledger, hg.told]
  · rw [get?_perform hq hs, get?_perform hq' hs']
    exact hg.turn now k s

/-- What an adaptor raises does not tell hubs apart that are alike. -/
theorem raised_eq (hg : h.Alike g) (hq : h.Quiet) (hs : h.ledger.Sound) (now : Int) (s : Step η)
    (k : Nat) : s.raised now g k = s.raised now h k := by
  rw [Step.raised, Step.raised, hg.waiting_eq, (hg.perform hq hs now s).waiting_eq]

/-- One hub may subscribe an adaptor to what makes no difference. -/
theorem subscribe (hg : h.Alike g) {p : Address} (hp : ∀ b, g.adaptors.get? k = some b →
    b.account.isPrefix = false ∧ (p = b.account ∨ ∃ q ∈ b.subscriptions, q.covers p)) :
    h.Alike (g.subscribe k p) := by
  have halters := Alters.updateAdaptor g k (·.subscribe p)
  refine ⟨(ledger_updateAdaptor ..).trans hg.ledger, halters.nextKey.trans hg.nextKey,
    halters.answers.trans hg.answers, (told_updateAdaptor ..).trans hg.told, fun j => ?_⟩
  have hj := hg.adaptor j
  rw [Hub.subscribe, get?_updateAdaptor]
  split
  next hk =>
    rw [← hk] at hp
    generalize h.adaptors.get? j = x at hj
    generalize g.adaptors.get? j = y at hj hp
    cases hj with
    | none => exact .none
    | some hab =>
      obtain ⟨hleaf, hp⟩ := hp _ rfl
      exact .some (hab.subscribe_right hleaf hp)
  · exact hj

end Alike

/-! ### Runs that differ in redundant subscriptions -/

section
variable {info : LedgerInfo} {l : Ledger} {xs ys : List (Int × Step η)}

/-- A subscription adds nothing to a run when it is to the adaptor's own account, or an earlier
one covers it. -/
def Redundant (l : Ledger) (steps : List (Int × Step η)) (k : Nat) (p : Address) : Prop :=
  ∀ a, (run l steps).adaptors.get? k = some a →
    p = a.account ∨ ∃ q, Subscribed l steps k q ∧ q.covers p

/-- The second run has the steps of the first, and redundant subscriptions in between. -/
inductive Padded (l : Ledger) : List (Int × Step η) → List (Int × Step η) → Prop
  | nil : Padded l [] []
  | step {xs ys : List (Int × Step η)} (h : Padded l xs ys) (s : Int × Step η) :
    Padded l (xs ++ [s]) (ys ++ [s])
  | extra {xs ys : List (Int × Step η)} (h : Padded l xs ys) (now : Int) {k : Nat} {p : Address}
      (hp : Redundant l ys k p) : Padded l xs (ys ++ [(now, .subscribe k p)])

theorem Padded.refl (l : Ledger) (steps : List (Int × Step η)) : Padded l steps steps := by
  induction steps using List.reverseRecOn with
  | nil => exact .nil
  | append_singleton steps s ih => exact ih.step s

/-- Runs that differ in redundant subscriptions go on alike. -/
theorem Padded.alike (hl : Ledger.make info = .ok l) (h : Padded l xs ys) :
    (run l xs).Alike (run l ys) ∧ ∀ j, (make l).raised j ys = (make l).raised j xs := by
  induction h with
  | nil => exact ⟨.refl _, fun _ => rfl⟩
  | @step xs ys h s ih =>
    obtain ⟨hg, hraised⟩ := ih
    have hq := quiet_run hl xs
    have hs := sound_run hl xs
    rw [run_concat, run_concat]
    refine ⟨hg.perform hq hs s.1 s.2, fun j => ?_⟩
    rw [raised_concat, raised_concat, hraised]
    exact congrArg _ (hg.raised_eq hq hs s.1 s.2 j)
  | @extra xs ys h now k p hp ih =>
    obtain ⟨hg, hraised⟩ := ih
    have hsub : (run l xs).Alike ((run l ys).subscribe k p) := by
      refine hg.subscribe fun b hb => ⟨(numbered_run hl ys k b hb).2, ?_⟩
      refine (hp b hb).imp_right fun ⟨q, hq, hcover⟩ => ⟨q, ?_, hcover⟩
      exact (mem_subscriptions_iff hl hb).2 hq
    rw [run_concat]
    refine ⟨hsub, fun j => ?_⟩
    have hnothing : (Step.subscribe k p).raised now (run l ys) j = [] := by
      rw [Step.raised, hg.waiting_eq]
      show (((run l ys).subscribe k p).waiting j).drop _ = []
      rw [hsub.waiting_eq]
      exact List.drop_length
    rw [raised_concat]
    exact (congrArg (_ ++ ·) hnothing).trans ((List.append_nil _).trans (hraised j))

end

/-! ### The transfer events of a run -/

/-- In every run, each notice about a transfer that the ledger makes while an adaptor has a
session raises one event of the adaptor if the transfer is its account's own or is within a
subscription made before, and none otherwise, all in the order of the ledger; the event has the
side that the account is on. Subscriptions to what an earlier one covers, or to the account
itself, change no event of any adaptor. -/
theorem transfer_events_follow_ledger {info : LedgerInfo} {l : Ledger}
    (hl : Ledger.make info = .ok l) (steps : List (Int × Step η)) (k : Nat) :
    let seen := (make l).sightings k steps
    (seen.map (·.notice)).Sublist (chronicle l steps).told ∧
    (∃ ess, List.Forall₂ Sighting.Raises (seen.filter (·.notice.transfer?.isSome)) ess ∧
      ((make l).raised k steps).filter (·.transfer?.isSome) = ess.flatten) ∧
    (∀ a, (run l steps).adaptors.get? k = some a →
      ∀ p, p ∈ a.subscriptions ↔ Subscribed l steps k p) ∧
    ∀ padded, Padded l steps padded → ∀ j, (make l).raised j padded = (make l).raised j steps := by
  intro seen
  have hq : (make l : Hub η).Quiet := quiet_run hl []
  have hs : (make l : Hub η).ledger.Sound := Ledger.sound_of_make hl
  exact ⟨sightings_sublist hl steps k, raises_after hq hs k steps,
    fun a ha p => mem_subscriptions_iff hl ha, fun padded hp => (hp.alike hl).2⟩

def sampleWatcher : Address := ⟨["g", "carol"], false, by decide⟩

/-- Two adaptors have sessions, one of them for a third account. -/
def sampleWatching : List (Int × Step Unit) :=
  Ledger.Sample.setUp.map (fun s => (s.1, .ledger s.2)) ++
    [(0, .ledger (.addAccount sampleWatcher "Carol" 0)), (1, .openAdaptor Ledger.Sample.alice),
      (1, .openAdaptor sampleWatcher), (1, .connect 0), (1, .connect 1)]

/-- The third account observes a payment between two others once it has subscribed to the whole
ledger, and one more subscription to one of them makes no difference. -/
theorem transfer_events_follow_ledger_observed :
    let l := Ledger.Sample.ledger
    let all := sampleWatching ++ [(2, .subscribe 1 l.info.address)]
    let sent := [(4, Step.sendTransfer 0 (Ledger.Sample.locked 'p'))]
    let padded := all ++ [(3, .subscribe 1 Ledger.Sample.bob)] ++ sent
    Ledger.make l.info = .ok l ∧ Padded l (all ++ sent) padded ∧
      (make l).raised 1 padded =
        [.connect l.info, .prepared (Ledger.Sample.locked 'p') .observed] := by
  intro l all sent padded
  have hl : Ledger.make l.info = .ok l := rfl
  have hsubscribed : Subscribed l all 1 l.info.address :=
    ⟨sampleWatching, 2, [], rfl, Option.isSome_iff_exists.1 (by decide +kernel)⟩
  have hpadded : Padded l (all ++ sent) padded :=
    ((Padded.refl l all).extra 3 fun a ha => .inr ⟨l.info.address, hsubscribed, by decide⟩).step _
  obtain ⟨-, -, -, hsame⟩ := transfer_events_follow_ledger hl (all ++ sent) 1
  exact ⟨hl, hpadded, (hsame padded hpadded 1).trans (by decide +kernel)⟩

end Hub

end Interledger
