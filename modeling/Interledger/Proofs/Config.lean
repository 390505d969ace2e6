import Interledger.Config
import Interledger.Proofs.Address
import Interledger.Proofs.Amount
import Interledger.Proofs.Table
import Mathlib.Data.List.Forall2

/-! What configurations come to. The faults of a configuration are listed in the order in which
they are looked for, each from the configuration alone. Building fails with the first of them; a
configuration without faults is consistent, and gives the ledger that it describes and an adaptor
beside it. -/

namespace Interledger

/-! ### First faults -/

namespace Error

/-- What a computation fails with, if it fails. -/
def of {α : Type} : Except Error α → List Error
  | .error e => [e]
  | .ok _ => []

theorem of_eq_nil_iff {α : Type} {x : Except Error α} : of x = [] ↔ ∃ a, x = .ok a := by
  cases x with
  | error e => exact iff_of_false nofun nofun
  | ok a => exact iff_of_true rfl ⟨a, rfl⟩

end Error

/-- Failing with the first of some faults, and with a good value when there is none. -/
def Meets {α : Type} (good : α → Prop) (faults : List Error) : Except Error α → Prop
  | .error e => faults.head? = some e
  | .ok a => faults = [] ∧ good a

namespace Meets

variable {α β : Type} {good : α → Prop} {good' : β → Prop} {faults faults' : List Error}
  {x : Except Error α}

theorem of_self (x : Except Error α) : Meets (x = .ok ·) (Error.of x) x := by
  cases x with
  | error e => rfl
  | ok a => exact ⟨rfl, rfl⟩

theorem mono {good' : α → Prop} (hx : Meets good faults x) (h : ∀ a, good a → good' a) :
    Meets good' faults x := by
  cases x with
  | error e => exact hx
  | ok a => exact ⟨hx.1, h a hx.2⟩

/-- A check in front, which fails with a fault of its own. -/
theorem of_ite {p q : Prop} [Decidable p] [Decidable q] {e : Error} (hpq : p ↔ q)
    (hx : ¬p → Meets good faults x) :
    Meets good ((if p then [e] else []) ++ faults) (if q then .error e else x) := by
  by_cases hp : p
  · rw [if_pos hp, if_pos (hpq.1 hp)]
    rfl
  · rw [if_neg hp, if_neg fun hq => hp (hpq.2 hq)]
    exact hx hp

theorem bind {f : α → Except Error β} (hx : Meets good faults x)
    (hf : ∀ a, good a → Meets good' faults' (f a)) : Meets good' (faults ++ faults') (x >>= f) := by
  cases x with
  | error e =>
    show (faults ++ faults').head? = some e
    rw [List.head?_append, show faults.head? = some e from hx]
    rfl
  | ok a =>
    obtain ⟨rfl, ha⟩ := hx
    exact hf a ha

theorem eq_error_iff (hx : Meets good faults x) (e : Error) :
    x = .error e ↔ faults.head? = some e := by
  cases x with
  | error e' =>
    have hhead : faults.head? = some e' := hx
    rw [hhead, Except.error.injEq, Option.some.injEq]
  | ok a =>
    obtain ⟨rfl, -⟩ := hx
    exact iff_of_false nofun nofun

theorem exists_eq_ok_iff (hx : Meets good faults x) : (∃ a, x = .ok a) ↔ faults = [] := by
  cases x with
  | error e =>
    refine iff_of_false nofun ?_
    rintro rfl
    cases hx
  | ok a => exact iff_of_true ⟨a, rfl⟩ hx.1

theorem of_eq_ok (hx : Meets good faults x) {a : α} (ha : x = .ok a) : good a := by
  subst ha
  exact hx.2

end Meets

/-! ### Faults -/

namespace AccountConfig

/-- The opening balance. No digits at all denote zero. -/
def opening (x : AccountConfig) : Int := Decimal.value x.balance

/-- Whether an account is a leaf that a ledger covers. -/
def isWithin (ledger : Bytes) (x : AccountConfig) : Bool :=
  match Address.parse ledger, Address.parse x.address with
  | .ok p, .ok a => !a.isPrefix && p.covers a
  | _, _ => false

/-- An account that can be opened on a ledger. -/
structure FitsIn (x : AccountConfig) (ledger : Address) : Prop where
  balance : x.balance = [] ∨ Decimal.IsCanonical x.balance
  address : ∃ a, Address.parse x.address = .ok a ∧ a.isPrefix = false ∧ ledger.covers a

/-- What is wrong with an account, after others have been configured. -/
def faults (ledger : Bytes) (earlier : List Bytes) (x : AccountConfig) : List Error :=
  (if x.balance = [] then [] else Error.of (Amount.parse x.balance)) ++
  (Error.of (Address.parse x.address) ++
  ((if x.isWithin ledger = false then [.accountElsewhere x.address ledger] else []) ++
  ((if earlier.contains x.address then [.accountExists x.address] else []) ++ [])))

end AccountConfig

namespace LedgerConfig

def addresses (c : LedgerConfig) : List Bytes := c.accounts.map (·.address)

/-- What is wrong with some accounts, each after those before it. -/
def accountFaults (ledger : Bytes) : List Bytes → List AccountConfig → List Error
  | _, [] => []
  | earlier, x :: xs => x.faults ledger earlier ++ accountFaults ledger (earlier ++ [x.address]) xs

def connectorFaults (accounts : List Bytes) (v : Bytes) : List Error :=
  Error.of (Address.parse v) ++
  ((if accounts.contains v = false then [.connectorNotFound v] else []) ++ [])

/-- What is wrong with a ledger, in the order of the checks. -/
def faults (c : LedgerConfig) : List Error :=
  Error.of (Address.parse c.address) ++
  ((if c.currencyScale < 0 ∨ c.precision < 0 then [.scaleNegative c.address] else []) ++
  ((if c.address.getLast? ≠ some dot then [.ledgerAtLeaf c.address] else []) ++
  (accountFaults c.address [] c.accounts ++ c.connectors.flatMap (connectorFaults c.addresses))))

/-- What is wrong with a ledger and the account of its adaptor. -/
def allFaults (c : LedgerConfig) : List Error :=
  c.faults ++
  ((if c.connectorAccount = [] then [.noConnectorAccount c.address] else []) ++
  (Error.of (Address.parse c.connectorAccount) ++
  ((if c.addresses.contains c.connectorAccount = false then
    [.connectorNotConfigured c.address c.connectorAccount] else []) ++ [])))

/-- A configuration that gives a ledger. -/
structure IsConsistent (c : LedgerConfig) : Prop where
  scale : 0 ≤ c.currencyScale
  precision : 0 ≤ c.precision
  ends : c.address.getLast? = some dot
  accounts : ∃ p, Address.parse c.address = .ok p ∧ ∀ x ∈ c.accounts, x.FitsIn p
  distinct : c.accounts.Pairwise fun x y => x.address ≠ y.address
  connectors : ∀ v ∈ c.connectors,
    ∃ a, Address.parse v = .ok a ∧ ∃ x ∈ c.accounts, Address.parse x.address = .ok a

/-- A ledger with the accounts and connectors of a configuration, on which nothing has happened. -/
structure Describes (c : LedgerConfig) (l : Ledger) : Prop where
  address : Address.parse c.address = .ok l.info.address
  info : l.info = ⟨l.info.address, c.currencyCode, c.currencyScale, c.precision⟩
  accounts : ∀ a r, l.accounts.get? a = some r ↔
    ∃ x ∈ c.accounts, x.address = a.text ∧ r = ⟨x.name, x.opening⟩
  covered : ∀ a, l.hasAccount a → a.isPrefix = false ∧ l.info.address.covers a
  connectors : ∀ a, a ∈ l.connectors ↔ a.text ∈ c.connectors
  escrow : l.escrow = 0
  book : l.book = .empty
  sessions : l.sessions = []
  adopted : l.adopted = .make c.address
  notices : l.notices = []
  log : l.log = []

/-! ### Building a ledger -/

variable {c : LedgerConfig} {l : Ledger} {a : Address}

theorem Describes.contains_eq (h : c.Describes l) :
    l.accounts.contains a = c.addresses.contains a.text := by
  rw [Bool.eq_iff_iff]
  simp [Table.contains, Option.isSome_iff_exists, h.accounts, addresses]

/-- The configuration up to some of the accounts and connectors. -/
def upTo (c : LedgerConfig) (accounts : List AccountConfig) (connectors : List Bytes) :
    LedgerConfig :=
  { c with accounts, connectors }

theorem make_meets {p : Address} (hp : Address.parse c.address = .ok p) :
    Meets (c.upTo [] []).Describes
      ((if c.address.getLast? ≠ some dot then [.ledgerAtLeaf c.address] else []) ++ [])
      (Ledger.make ⟨p, c.currencyCode, c.currencyScale, c.precision⟩) := by
  have htext := Address.text_of_parse hp
  have hmake : Ledger.make ⟨p, c.currencyCode, c.currencyScale, c.precision⟩ =
      if ¬p.isPrefix then .error (.ledgerAtLeaf c.address)
      else .ok ⟨⟨p, c.currencyCode, c.currencyScale, c.precision⟩, .empty, [], [], 0, .empty,
        .make c.address, [], []⟩ := by
    rw [Ledger.make, htext, ite_not]
  rw [hmake]
  refine .of_ite ?_ fun _ => ⟨rfl, ?_⟩
  · rw [Address.isPrefix_iff, htext]
  · exact {
      address := hp
      info := rfl
      accounts := fun a r => iff_of_false nofun nofun
      covered := nofun
      connectors := fun a => iff_of_false nofun nofun
      escrow := rfl
      book := rfl
      sessions := rfl
      adopted := rfl
      notices := rfl
      log := rfl }

theorem opening_meets (x : AccountConfig) :
    Meets (· = x.opening) (if x.balance = [] then [] else Error.of (Amount.parse x.balance))
      (if x.balance = [] then pure 0 else Amount.parse x.balance) := by
  split
  next hnil => exact ⟨rfl, by rw [AccountConfig.opening, hnil]; rfl⟩
  next => exact (Meets.of_self _).mono fun n hn => (Amount.parse_eq_ok_iff.1 hn).2

theorem addAccount_bind (l : Ledger) (a : Address) (name : Bytes) (n : Int) :
    ((l.addAccount a name n).1 >>= fun _ => Except.ok (l.addAccount a name n).2) =
      if a.isPrefix || !l.info.address.covers a then
        .error (.accountElsewhere a.text l.info.address.text)
      else if n < 0 then .error (.openingNegative a.text)
      else if l.accounts.contains a then .error (.accountExists a.text)
      else .ok { l with accounts := l.accounts.insert a ⟨name, n⟩ } := by
  unfold Ledger.addAccount
  split
  · rfl
  split
  · rfl
  split
  · rfl
  · rfl

theorem addConnector_bind (l : Ledger) (a : Address) :
    ((l.addConnector a).1 >>= fun _ => Except.ok (l.addConnector a).2) =
      if ¬l.accounts.contains a then .error (.connectorNotFound a.text)
      else .ok { l with connectors := a.insert l.connectors } := by
  unfold Ledger.addConnector
  rw [ite_not]
  split
  · rfl
  · rfl

/-- One more account. -/
theorem Describes.account {done : List AccountConfig} {x : AccountConfig}
    (h : (c.upTo done []).Describes l) (hx : a.text = x.address) (hleaf : a.isPrefix = false)
    (hcovers : l.info.address.covers a) (hnew : l.accounts.contains a = false) :
    (c.upTo (done ++ [x]) []).Describes
      { l with accounts := l.accounts.insert a ⟨x.name, x.opening⟩ } where
  address := h.address
  info := h.info
  accounts b r := by
    -- The old accounts are described, and what is left to compare is the new one.
    have hdone : l.accounts.get? b = some r ↔
        ∃ y ∈ done, y.address = b.text ∧ r = ⟨y.name, y.opening⟩ := h.accounts b r
    simp only [upTo, List.mem_append, List.mem_singleton, or_and_right, exists_or,
      exists_eq_left, ← hdone, Table.get?_insert]
    by_cases hb : b = a
    · have hnone : l.accounts.get? b = none := Table.get?_eq_none_iff.2 (hb ▸ hnew)
      simp [hb, hb ▸ hnone, hx, eq_comm]
    · have hne : x.address ≠ b.text := fun htext =>
        hb (Address.text_injective (htext.symm.trans hx.symm))
      simp [hb, hne]
  covered b hb := by
    rw [Ledger.hasAccount, Table.contains_insert, Bool.or_eq_true, decide_eq_true_eq] at hb
    rcases hb with rfl | hb
    · exact ⟨hleaf, hcovers⟩
    · exact h.covered b hb
  connectors := h.connectors
  escrow := h.escrow
  book := h.book
  sessions := h.sessions
  adopted := h.adopted
  notices := h.notices
  log := h.log

theorem openIn_eq (x : AccountConfig) (l : Ledger) : x.openIn l =
    (if x.balance = [] then pure 0 else Amount.parse x.balance) >>= fun n =>
      Address.parse x.address >>= fun a =>
        (l.addAccount a x.name n).1 >>= fun _ => .ok (l.addAccount a x.name n).2 := by
  unfold AccountConfig.openIn
  split
  · rfl
  · rfl

theorem openIn_meets {done : List AccountConfig} (h : (c.upTo done []).Describes l)
    (x : AccountConfig) : Meets (c.upTo (done ++ [x]) []).Describes
      (x.faults c.address (done.map (·.address))) (x.openIn l) := by
  rw [openIn_eq]
  refine (opening_meets x).bind fun n hn => (Meets.of_self _).bind fun a ha => ?_
  have hx := Address.text_of_parse ha
  have hledger : l.info.address.text = c.address := Address.text_of_parse h.address
  have hwithin : x.isWithin c.address = (!a.isPrefix && l.info.address.covers a) := by
    rw [AccountConfig.isWithin, ha, show Address.parse c.address = _ from h.address]
  have hnonneg : ¬n < 0 := by
    rw [hn]
    exact Int.not_lt.2 (Int.natCast_nonneg _)
  rw [addAccount_bind, if_neg hnonneg, hx, hledger, hn]
  refine .of_ite (by rw [hwithin]; cases a.isPrefix <;> simp) fun hgood => ?_
  have hcontains : l.accounts.contains a = (done.map (·.address)).contains x.address := by
    rw [h.contains_eq, hx]
    rfl
  refine .of_ite (by rw [hcontains]) fun hnew => ⟨rfl, ?_⟩
  rw [hwithin, Bool.not_eq_false, Bool.and_eq_true, Bool.not_eq_true'] at hgood
  refine h.account hx hgood.1 hgood.2 ?_
  rwa [hcontains, ← Bool.not_eq_true]

/-- Each account is checked against a ledger that is described by those before it. -/
theorem accounts_meet (xs : List AccountConfig) {done : List AccountConfig}
    (h : (c.upTo done []).Describes l) : Meets (c.upTo (done ++ xs) []).Describes
      (accountFaults c.address (done.map (·.address)) xs) (xs.foldlM (fun l x => x.openIn l) l) := by
  induction xs generalizing done l with
  | nil => exact ⟨rfl, by rwa [List.append_nil]⟩
  | cons x xs ih =>
    rw [List.foldlM_cons, accountFaults]
    refine (openIn_meets h x).bind fun l' hl' => ?_
    have hrest := ih hl'
    rwa [List.append_assoc, List.singleton_append, List.map_append, List.map_singleton] at hrest

theorem addConnector_meets {done : List Bytes} (h : (c.upTo c.accounts done).Describes l)
    (v : Bytes) : Meets (c.upTo c.accounts (done ++ [v])).Describes
      (connectorFaults c.addresses v) (addConnector l v) := by
  have hadd : addConnector l v = Address.parse v >>= fun a =>
      (l.addConnector a).1 >>= fun _ => .ok (l.addConnector a).2 := rfl
  rw [hadd]
  refine (Meets.of_self _).bind fun a ha => ?_
  have hv := Address.text_of_parse ha
  rw [addConnector_bind, hv]
  have hcontains : l.accounts.contains a = c.addresses.contains v := by
    rw [h.contains_eq, hv]
    rfl
  refine .of_ite (by rw [hcontains, Bool.not_eq_true]) fun _ => ⟨rfl, ?_⟩
  exact { h with
    connectors := fun b => by
      rw [Address.mem_insert, h.connectors, upTo, upTo, List.mem_append, List.mem_singleton, ← hv,
        or_comm]
      exact or_congr_right ⟨congrArg _, Address.text_injective⟩ }

theorem connectors_meet (vs : List Bytes) {done : List Bytes}
    (h : (c.upTo c.accounts done).Describes l) : Meets (c.upTo c.accounts (done ++ vs)).Describes
      (vs.flatMap (connectorFaults c.addresses)) (vs.foldlM addConnector l) := by
  induction vs generalizing done l with
  | nil => exact ⟨rfl, by rwa [List.append_nil]⟩
  | cons v vs ih =>
    rw [List.foldlM_cons, List.flatMap_cons]
    refine (addConnector_meets h v).bind fun l' hl' => ?_
    have hrest := ih hl'
    rwa [List.append_assoc, List.singleton_append] at hrest

/-- Building fails with the first fault, and otherwise gives the ledger that is described. -/
theorem build_meets (c : LedgerConfig) : Meets c.Describes c.faults c.build := by
  have hbuild : c.build = Address.parse c.address >>= fun p =>
      if c.currencyScale < 0 ∨ c.precision < 0 then .error (.scaleNegative c.address)
      else
        Ledger.make ⟨p, c.currencyCode, c.currencyScale, c.precision⟩ >>= fun l =>
          c.accounts.foldlM (fun l x => x.openIn l) l >>= fun l =>
            c.connectors.foldlM addConnector l := by
    unfold build
    split
    · rfl
    · rfl
  rw [hbuild]
  refine (Meets.of_self _).bind fun p hp => .of_ite Iff.rfl fun _ => ?_
  have hmake := make_meets hp
  rw [List.append_nil] at hmake
  exact hmake.bind fun l hl => (accounts_meet c.accounts hl).bind fun l hl =>
    connectors_meet c.connectors hl

/-! ### Without faults -/

theorem account_faults_eq_nil_iff {ledger : Bytes} {p : Address}
    (hp : Address.parse ledger = .ok p) {earlier : List Bytes} {x : AccountConfig} :
    x.faults ledger earlier = [] ↔ x.FitsIn p ∧ x.address ∉ earlier := by
  have hbalance : (if x.balance = [] then [] else Error.of (Amount.parse x.balance)) = [] ↔
      x.balance = [] ∨ Decimal.IsCanonical x.balance := by
    by_cases hnil : x.balance = []
    · simp [hnil]
    · simp [hnil, Error.of_eq_nil_iff, Amount.parse_eq_ok_iff]
  -- An address that is no text is within no ledger, so the two checks are taken together.
  have haddress : Error.of (Address.parse x.address) = [] ∧ x.isWithin ledger ↔
      ∃ a, Address.parse x.address = .ok a ∧ a.isPrefix = false ∧ p.covers a := by
    rw [AccountConfig.isWithin, hp]
    cases Address.parse x.address with
    | error e => exact iff_of_false (fun h => nomatch h.1) nofun
    | ok a => simp [Error.of]
  have hfits : x.FitsIn p ↔ (x.balance = [] ∨ Decimal.IsCanonical x.balance) ∧
      Error.of (Address.parse x.address) = [] ∧ x.isWithin ledger := by
    rw [haddress]
    exact ⟨fun h => ⟨h.balance, h.address⟩, fun h => ⟨h.1, h.2⟩⟩
  rw [AccountConfig.faults, List.append_eq_nil_iff, hbalance, hfits]
  simp [and_assoc]

theorem accountFaults_eq_nil_iff {ledger : Bytes} {p : Address} (hp : Address.parse ledger = .ok p)
    {earlier : List Bytes} {xs : List AccountConfig} : accountFaults ledger earlier xs = [] ↔
      (∀ x ∈ xs, x.FitsIn p) ∧ (xs.Pairwise fun x y => x.address ≠ y.address) ∧
        ∀ x ∈ xs, x.address ∉ earlier := by
  induction xs generalizing earlier with
  | nil => exact iff_of_true rfl ⟨nofun, .nil, nofun⟩
  | cons x xs ih =>
    rw [accountFaults, List.append_eq_nil_iff, ih, account_faults_eq_nil_iff hp,
      List.pairwise_cons, List.forall_mem_cons, List.forall_mem_cons]
    constructor
    · rintro ⟨⟨hx, hnew⟩, hxs, hdistinct, hlater⟩
      refine ⟨⟨hx, hxs⟩, ⟨fun y hy heq => hlater y hy ?_, hdistinct⟩, hnew, fun y hy hearlier =>
        hlater y hy (List.mem_append_left _ hearlier)⟩
      exact List.mem_append_right _ (List.mem_singleton.2 heq.symm)
    · rintro ⟨⟨hx, hxs⟩, ⟨hne, hdistinct⟩, hnew, hearlier⟩
      refine ⟨⟨hx, hnew⟩, hxs, hdistinct, fun y hy hlater => ?_⟩
      rcases List.mem_append.1 hlater with h | h
      · exact hearlier y hy h
      · exact hne y hy (List.mem_singleton.1 h).symm

/-- One text of an address is the only one, so a connector that is an account is written alike. -/
theorem connectorFaults_eq_nil_iff (c : LedgerConfig) (v : Bytes) :
    connectorFaults c.addresses v = [] ↔
      ∃ a, Address.parse v = .ok a ∧ ∃ x ∈ c.accounts, Address.parse x.address = .ok a := by
  have hknown : c.addresses.contains v ↔ ∃ x ∈ c.accounts, x.address = v := by simp [addresses]
  simp only [connectorFaults, List.append_eq_nil_iff, Error.of_eq_nil_iff, ite_eq_right_iff,
    List.cons_ne_nil, imp_false, Bool.not_eq_false, and_true, hknown]
  constructor
  · rintro ⟨⟨a, ha⟩, x, hx, hv⟩
    exact ⟨a, ha, x, hx, hv ▸ ha⟩
  · rintro ⟨a, ha, x, hx, hxa⟩
    exact ⟨⟨a, ha⟩, x, hx, (Address.text_of_parse hxa).symm.trans (Address.text_of_parse ha)⟩

theorem faults_eq_nil_iff (c : LedgerConfig) : c.faults = [] ↔ c.IsConsistent := by
  simp only [faults, List.append_eq_nil_iff, Error.of_eq_nil_iff, ite_eq_right_iff,
    List.cons_ne_nil, imp_false, not_or, Int.not_lt, not_not, List.flatMap_eq_nil_iff,
    connectorFaults_eq_nil_iff]
  constructor
  · rintro ⟨⟨p, hp⟩, ⟨hscale, hprecision⟩, hends, haccounts, hconnectors⟩
    obtain ⟨hfit, hdistinct, -⟩ := (accountFaults_eq_nil_iff hp).1 haccounts
    exact ⟨hscale, hprecision, hends, ⟨p, hp, hfit⟩, hdistinct, hconnectors⟩
  · rintro ⟨hscale, hprecision, hends, ⟨p, hp, hfit⟩, hdistinct, hconnectors⟩
    exact ⟨⟨p, hp⟩, ⟨hscale, hprecision⟩, hends,
      (accountFaults_eq_nil_iff hp).2 ⟨hfit, hdistinct, nofun⟩, hconnectors⟩

/-- A configuration that gives a ledger and an adaptor. -/
structure IsComplete (c : LedgerConfig) : Prop extends c.IsConsistent where
  connector : c.connectorAccount ≠ [] ∧ ∃ a, Address.parse c.connectorAccount = .ok a ∧
    ∃ x ∈ c.accounts, Address.parse x.address = .ok a

theorem allFaults_eq_nil_iff (c : LedgerConfig) : c.allFaults = [] ↔ c.IsComplete := by
  have hconnector := connectorFaults_eq_nil_iff c c.connectorAccount
  simp only [connectorFaults, List.append_eq_nil_iff, ite_eq_right_iff, List.cons_ne_nil,
    imp_false, and_true] at hconnector
  simp only [allFaults, List.append_eq_nil_iff, faults_eq_nil_iff, ite_eq_right_iff,
    List.cons_ne_nil, imp_false, and_true, hconnector]
  exact ⟨fun h => ⟨h.1, h.2⟩, fun h => ⟨h.1, h.2⟩⟩

/-! ### Building everything -/

/-- A hub with one adaptor, which has done nothing. -/
def hubOf {η : Type} (l : Ledger) (a : Address) : Hub η :=
  ⟨l, Table.empty.insert 0 ⟨a, false, [], (Courier.make a.text).start, (Alarm.make a.text).start⟩,
    1, .empty, [], []⟩

/-- The ledger of a configuration and the adaptor that acts for its account. -/
structure Runs {η : Type} (c : LedgerConfig) (h : Hub η) : Prop where
  ledger : c.Describes h.ledger
  adaptor : ∃ a, Address.parse c.connectorAccount = .ok a ∧ h.ledger.hasAccount a ∧
    h = hubOf h.ledger a

theorem openAdaptor_make {η : Type} (hleaf : a.isPrefix = false) :
    (Hub.make l : Hub η).openAdaptor a = (.ok 0, hubOf l a) := by
  have hmake : (Adaptor.make a : Except Error (Adaptor η)) =
      .ok ⟨a, false, [], (Courier.make a.text).start, (Alarm.make a.text).start⟩ := by
    rw [Adaptor.make, hleaf]
    rfl
  rw [Hub.openAdaptor, hmake]
  rfl

theorem buildWithConnector_meets (c : LedgerConfig) :
    Meets (fun la => c.Describes la.1 ∧ Address.parse c.connectorAccount = .ok la.2 ∧
      la.1.hasAccount la.2) c.allFaults c.buildWithConnector := by
  have hbuild : c.buildWithConnector = c.build >>= fun l =>
      if c.connectorAccount = [] then .error (.noConnectorAccount c.address)
      else
        Address.parse c.connectorAccount >>= fun a =>
          if ¬l.hasAccount a then .error (.connectorNotConfigured c.address a.text)
          else .ok (l, a) := by
    unfold buildWithConnector
    split
    · rfl
    · simp only [ite_not]
      rfl
  rw [hbuild]
  refine c.build_meets.bind fun l hl => .of_ite Iff.rfl fun _ =>
    (Meets.of_self _).bind fun a ha => ?_
  have ha' := Address.text_of_parse ha
  rw [ha']
  have hknown : l.hasAccount a = c.addresses.contains c.connectorAccount := by
    rw [Ledger.hasAccount, hl.contains_eq, ha']
  refine .of_ite (by rw [hknown, Bool.not_eq_true]) fun h => ⟨rfl, hl, ha, ?_⟩
  rwa [hknown, ← Bool.not_eq_false]

theorem buildHub_meets {η : Type} (c : LedgerConfig) :
    Meets (fun ha : Hub η × Address => Runs c ha.1) c.allFaults c.buildHub := by
  rw [buildHub, ← List.append_nil c.allFaults]
  refine c.buildWithConnector_meets.bind fun ⟨l, a⟩ ⟨hl, ha, hknown⟩ => ?_
  dsimp only
  rw [openAdaptor_make (hl.covered a hknown).1]
  exact ⟨rfl, hl, a, ha, hknown, rfl⟩

theorem buildAll_meets {η : Type} (cs : List LedgerConfig) :
    Meets (fun hs : List (Hub η) => List.Forall₂ Runs cs hs) (cs.flatMap allFaults)
      (buildAll cs).2 := by
  induction cs with
  | nil => exact ⟨rfl, .nil⟩
  | cons c cs ih =>
    have hbuild : (buildAll (c :: cs) : _ × Except Error (List (Hub η))).2 =
        c.buildHub >>= fun ha => (buildAll cs).2 >>= fun hs => .ok (ha.1 :: hs) := by
      rw [buildAll]
      cases (c.buildHub : Except Error (Hub η × Address)) with
      | error e => rfl
      | ok ha =>
        show _ = (buildAll cs : _ × Except Error (List (Hub η))).2 >>= _
        cases (buildAll cs : _ × Except Error (List (Hub η))) with
        | mk lines rest => cases rest <;> rfl
    rw [hbuild, List.flatMap_cons]
    refine c.buildHub_meets.bind fun ha hha => ?_
    rw [← List.append_nil (cs.flatMap _)]
    exact ih.bind fun hs hhs => ⟨rfl, .cons hha hhs⟩

/-- A consistent configuration gives the ledger that it describes, and any other the first of its
faults. Of several, either each gives a ledger and an adaptor, in order, or the first fault of all
is given. -/
theorem builds_consistent {η : Type} :
    (∀ c : LedgerConfig, ((∃ l, c.build = .ok l) ↔ c.IsConsistent) ∧
      (∀ e, c.build = .error e ↔ c.faults.head? = some e) ∧
      ∀ l, c.build = .ok l → c.Describes l) ∧
    ∀ cs : List LedgerConfig,
      ((∃ hs : List (Hub η), (buildAll cs).2 = .ok hs) ↔ ∀ c ∈ cs, c.IsComplete) ∧
      (∀ e, (buildAll cs : _ × Except Error (List (Hub η))).2 = .error e ↔
        (cs.flatMap allFaults).head? = some e) ∧
      ∀ hs : List (Hub η), (buildAll cs).2 = .ok hs → List.Forall₂ Runs cs hs := by
  refine ⟨fun c => ⟨?_, c.build_meets.eq_error_iff, fun l => c.build_meets.of_eq_ok⟩,
    fun cs => ⟨?_, (buildAll_meets cs).eq_error_iff, fun hs => (buildAll_meets cs).of_eq_ok⟩⟩
  · rw [c.build_meets.exists_eq_ok_iff, c.faults_eq_nil_iff]
  · rw [(buildAll_meets cs).exists_eq_ok_iff, List.flatMap_eq_nil_iff]
    exact forall₂_congr fun c _ => c.allFaults_eq_nil_iff

end LedgerConfig

end Interledger
