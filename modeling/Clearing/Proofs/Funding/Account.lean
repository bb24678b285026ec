import Clearing.Proofs.Decimal.Products
import Clearing.Proofs.Funding.Settlement
import Clearing.Proofs.Instant
import Clearing.Proofs.Ledger.Runs

/-!
What a market was charged over a whole run.

An account of a market is kept from the outside: it reads the operations of a run and the replies
to them, and never the book.  It lists what was charged with the stretch of time that each charge
is for, and it tells the time with funding enabled from the time without.

Main statement: `run_tallies`.  After every run whose clock never goes back, the state of a market
adds up to the charges of its account, and these are for stretches of time that lie one after
another between the first terms and the last settlement.

The proof keeps account and book side by side.  `Follows` is what stands between them, and it holds
after an operation if the account was not ahead of the clock before it.
-/

namespace Clearing

open Decimal

/-! ### Time -/

namespace FundingBook

/-- The clock of the operations never goes back. -/
def Forward (ops : List Operation) : Prop :=
  ops.Pairwise fun earlier later => ¬ later.now < earlier.now

instance (ops : List Operation) : Decidable (Forward ops) :=
  inferInstanceAs (Decidable (ops.Pairwise _))

end FundingBook

/-! ### Accounts -/

/-- What one settlement charged, and the time between it and the settlement before. -/
structure FundingCharge where
  rate : Bps
  periods : UInt64
  /-- The seconds of one period, as they were in force. -/
  period : UInt64
  since : Instant
  upTo : Instant
deriving DecidableEq

namespace FundingCharge

/-- The seconds that are charged. -/
def seconds (c : FundingCharge) : Nat :=
  c.periods.toNat * c.period.toNat

/-- The rate of one period, once for each of the periods. -/
def step (c : FundingCharge) : Int :=
  c.rate.toInt * c.periods.toNat

/-- Charges are for stretches of time that lie apart, in their order, between two instants. -/
structure Once (first last : Instant) (charges : List FundingCharge) : Prop where
  total : (charges.map fun c => (c.seconds : Int)).sum ≤ first.gap last / 1000
  within : ∀ c ∈ charges, (c.seconds : Int) * 1000 ≤ c.since.gap c.upTo
  inside : ∀ c ∈ charges, 0 ≤ first.gap c.since ∧ 0 ≤ c.upTo.gap last
  apart : charges.Pairwise fun earlier later => 0 ≤ earlier.upTo.gap later.since

variable {first last now : Instant} {charges : List FundingCharge} {c : FundingCharge}

theorem Once.nil (first : Instant) : Once first first [] where
  total := by
    rw [first.gap_self]
    exact Int.le_refl 0
  within := nofun
  inside := nofun
  apart := .nil

theorem Once.later (h : Once first last charges) (hlater : 0 ≤ last.gap now) :
    Once first now charges where
  total := by
    have htotal := h.total
    have hgap := first.gap_add last now
    omega
  within := h.within
  inside := fun c hc => by
    obtain ⟨hfirst, hlast⟩ := h.inside c hc
    have hgap := c.upTo.gap_add last now
    exact ⟨hfirst, by omega⟩
  apart := h.apart

theorem Once.append (h : Once first c.since charges) (hopened : 0 ≤ first.gap c.since)
    (hwithin : (c.seconds : Int) * 1000 ≤ c.since.gap c.upTo) :
    Once first c.upTo (charges ++ [c]) where
  total := by
    have htotal := h.total
    have hgap := first.gap_add c.since c.upTo
    rw [List.map_append, List.sum_append, List.map_singleton, List.sum_singleton]
    omega
  within := by
    simpa only [List.forall_mem_append, List.forall_mem_singleton] using ⟨h.within, hwithin⟩
  inside := by
    have hlater : Once first c.upTo charges := h.later (by omega)
    rw [List.forall_mem_append, List.forall_mem_singleton]
    exact ⟨hlater.inside, hopened, Int.le_of_eq (Instant.gap_self _).symm⟩
  apart := by
    rw [List.pairwise_append]
    refine ⟨h.apart, List.pairwise_singleton .., fun earlier hearlier later hlater => ?_⟩
    rw [List.mem_singleton.1 hlater]
    exact (h.inside earlier hearlier).2

end FundingCharge

/-- What is known of a market from the operations of a run and the replies to them. -/
structure FundingAccount where
  /-- When it was first configured. -/
  first : Instant
  terms : FundingTerms
  charges : List FundingCharge
  /-- The last settlement, or the first configuration where there is none. -/
  since : Instant
  /-- The last operation. -/
  seen : Instant
  /-- The milliseconds from `since` to `seen` under terms that enable funding. -/
  enabled : Int
  /-- The milliseconds from `since` to `seen` under terms that do not. -/
  disabled : Int
deriving DecidableEq

namespace FundingAccount

open FundingBook (Operation Reply)

/-- The account of a market with its first terms. -/
def start (terms : FundingTerms) (now : Instant) : FundingAccount :=
  ⟨now, terms, [], now, now, 0, 0⟩

/-- The time that passed counts as the terms have it. -/
def pass (a : FundingAccount) (now : Instant) : FundingAccount :=
  { a with
    seen := now
    enabled := a.enabled + if a.terms.enabled then a.seen.gap now else 0
    disabled := a.disabled + if a.terms.enabled then 0 else a.seen.gap now }

/-- The account under new terms. -/
def configure (a : FundingAccount) (terms : FundingTerms) (now : Instant) : FundingAccount :=
  { a.pass now with terms := terms }

/-- What a settlement charges, on the terms in force and for the time since the last one. -/
def charge (a : FundingAccount) (s : FundingSettlement) (now : Instant) : FundingCharge :=
  ⟨s.rate, s.periods, a.terms.period, a.since, now⟩

/-- The account after a settlement: time counts from there on. -/
def settle (a : FundingAccount) (s : FundingSettlement) (now : Instant) : FundingAccount :=
  { a with
    charges := if s.periods = 0 then a.charges else a.charges ++ [a.charge s now]
    since := now, seen := now, enabled := 0, disabled := 0 }

/-- What an operation with this reply changes in the account of a market, if there is one. -/
def read (market : MarketId) :
    Option FundingAccount → Operation × Except FundingError Reply → Option FundingAccount
  | account, (.configure other terms now, .ok _) =>
    if other ≠ market then account
    else some ((account.map (·.configure terms now)).getD (.start terms now))
  | account, (.settle other _ now, .ok (.settled s _)) =>
    if other ≠ market then account else account.map (·.settle s now)
  | account, _ => account

/-- What a run with these replies changes in the account of a market. -/
def readAll (market : MarketId) (account : Option FundingAccount) (ops : List Operation)
    (replies : List (Except FundingError Reply)) : Option FundingAccount :=
  (ops.zip replies).foldl (read market) account

/-- The account of a market after a run of a book without any terms. -/
def ofRun (market : MarketId) (ops : List Operation)
    (replies : List (Except FundingError Reply)) : Option FundingAccount :=
  readAll market none ops replies

/-- All time is counted, and none of it charged twice. -/
structure Sound (a : FundingAccount) : Prop where
  once : FundingCharge.Once a.first a.since a.charges
  opened : 0 ≤ a.first.gap a.since
  passed : 0 ≤ a.since.gap a.seen
  counted : a.enabled + a.disabled = a.since.gap a.seen

/-- A state adds up to the charges of an account. -/
structure Shows (a : FundingAccount) (state : FundingState) : Prop where
  clock : state.lastSettlement = a.since
  index : state.cumulativeIndex.units = unitsOf (a.charges.map (·.step)).sum
  settlements : state.settlements = a.charges.length
  lastRate : state.lastRate = (a.charges.getLast?.map (·.rate)).getD .zero

/-- A state adds up to the charges of an account, and these are for time that passed once. -/
structure Tallies (a : FundingAccount) (state : FundingState) : Prop extends a.Shows state where
  once : FundingCharge.Once a.first state.lastSettlement a.charges

/-- The account is not ahead of the clock of what is still to come. -/
def Precedes (account : Option FundingAccount) (ops : List Operation) : Prop :=
  ∀ a, account = some a → ∀ op ∈ ops, 0 ≤ a.seen.gap op.now

variable {a : FundingAccount} {now : Instant} {terms : FundingTerms} {s : FundingSettlement}

/-! ### The account by itself -/

theorem Sound.start (terms : FundingTerms) (now : Instant) : (start terms now).Sound where
  once := .nil now
  opened := Int.le_of_eq now.gap_self.symm
  passed := Int.le_of_eq now.gap_self.symm
  counted := now.gap_self.symm

theorem Sound.pass (h : a.Sound) (hnow : 0 ≤ a.seen.gap now) : (a.pass now).Sound where
  once := h.once
  opened := h.opened
  passed := by
    have hpassed := h.passed
    have hgap := a.since.gap_add a.seen now
    show 0 ≤ a.since.gap now
    omega
  counted := by
    have hcounted := h.counted
    have hgap := a.since.gap_add a.seen now
    unfold FundingAccount.pass
    dsimp only
    split <;> omega

theorem Sound.configure (h : a.Sound) (hnow : 0 ≤ a.seen.gap now) :
    (a.configure terms now).Sound :=
  have hpass := h.pass hnow
  ⟨hpass.once, hpass.opened, hpass.passed, hpass.counted⟩

theorem Sound.settle (h : a.Sound) (hnow : 0 ≤ a.seen.gap now)
    (hcharged : ((a.charge s now).seconds : Int) * 1000 ≤ a.since.gap now) :
    (a.settle s now).Sound where
  once := by
    show FundingCharge.Once a.first now (if _ then _ else _)
    split
    · exact h.once.later (h.pass hnow).passed
    · exact h.once.append (c := a.charge s now) h.opened hcharged
  opened := by
    have hopened := h.opened
    have hpassed : 0 ≤ a.since.gap now := (h.pass hnow).passed
    have hgap := a.first.gap_add a.since now
    show 0 ≤ a.first.gap now
    omega
  passed := Int.le_of_eq now.gap_self.symm
  counted := now.gap_self.symm

/-! ### The state by itself -/

/-- What a charge writes into the state. -/
theorem charge_eq_ok {state next : FundingState} {rate : Bps} {periods : UInt64} {i : Int}
    (h : FundingBook.charge state rate periods = .ok next)
    (hwhole : state.cumulativeIndex.units = unitsOf i) :
    next.cumulativeIndex.units = unitsOf (i + rate.toInt * periods.toNat) ∧
      next.settlements = state.settlements + 1 ∧ next.lastRate = rate := by
  unfold FundingBook.charge at h
  simp only [bind_eq_ok, pure_eq_ok] at h
  obtain ⟨step, hstep, index, hindex, rfl⟩ := h
  have hwholeStep := units_of_mul_whole hstep (units_ofInt32 rate.val) (units_ofUInt64 periods)
  exact ⟨units_of_add_whole hindex hwhole hwholeStep, rfl, rfl⟩

theorem Shows.start (terms : FundingTerms) (now : Instant) :
    (start terms now).Shows (.start now) where
  clock := rfl
  index := by
    rw [FundingAccount.start, List.map_nil, List.sum_nil, unitsOf_zero]
    exact units_zero
  settlements := rfl
  lastRate := rfl

/-- What a settlement leaves as the state of its market adds up to the account after it. -/
theorem Shows.settle {b next : FundingBook} {market : MarketId} {l l' : Ledger}
    {state : FundingState} (h : a.Shows state) (hstate : b.state? market = some state)
    (hsettled : b.Settled market l now s next l') :
    ∃ state', next.state? market = some state' ∧ (a.settle s now).Shows state' := by
  cases hsettled with
  | idle =>
    rw [FundingBook.state?_advance, if_pos rfl, hstate, Option.getD_some]
    exact ⟨_, rfl, rfl, h.index, h.settlements, h.lastRate⟩
  | @charged _ _ state' rate periods _ _ _ _ _ hbefore _ hsome _ _ hcharge =>
    rw [hstate, Option.getD_some] at hbefore
    subst hbefore
    rw [FundingBook.state?_advance, if_pos rfl]
    obtain ⟨hindex, hsettlements, hrate⟩ := charge_eq_ok hcharge h.index
    unfold FundingAccount.settle
    dsimp only
    rw [if_neg hsome]
    refine ⟨_, rfl, rfl, ?_, ?_, ?_⟩
    · rw [List.map_append, List.sum_append, List.map_singleton, List.sum_singleton]
      exact hindex
    · rw [List.length_append, List.length_singleton, ← h.settlements]
      exact hsettlements
    · rw [List.getLast?_concat]
      exact hrate

/-! ### Account and book -/

/-- What stands between the account of a market and a book. -/
inductive Follows (market : MarketId) (b : FundingBook) : Option FundingAccount → Prop
  | unconfigured (hterms : b.terms? market = none) (hstate : b.state? market = none) :
      Follows market b none
  | configured {a : FundingAccount} {state : FundingState} (hsound : a.Sound)
      (hterms : b.terms? market = some a.terms) (hstate : b.state? market = some state)
      (hshows : a.Shows state) : Follows market b (some a)

variable {b next : FundingBook} {market other : MarketId} {account : Option FundingAccount}
  {l l' : Ledger}

theorem Follows.of_same (h : Follows market b account)
    (hterms : next.terms? market = b.terms? market)
    (hstate : next.state? market = b.state? market) : Follows market next account := by
  cases h with
  | unconfigured hnoTerms hnoState =>
    exact .unconfigured (hterms.trans hnoTerms) (hstate.trans hnoState)
  | configured hsound hsome hshown hshows =>
    exact .configured hsound (hterms.trans hsome) (hstate.trans hshown) hshows

theorem Follows.configure {earlier : Option FundingTerms} (h : Follows market b account)
    (hahead : ∀ a, account = some a → 0 ≤ a.seen.gap now)
    (hconfigure : b.configure other terms now = .ok (earlier, next)) :
    Follows market next
      (read market account (.configure other terms now, .ok (.configured earlier))) := by
  obtain ⟨-, -, hterms, hstate⟩ := FundingBook.configure_eq_ok hconfigure
  show Follows market next (if _ then _ else _)
  by_cases hother : other = market
  · rw [if_neg (not_not.2 hother)]
    specialize hterms market
    specialize hstate market
    rw [if_pos hother.symm] at hterms hstate
    rw [hother] at hstate
    cases h with
    | unconfigured _ hnone =>
      rw [hnone] at hstate
      exact .configured (.start terms now) hterms hstate (.start terms now)
    | configured hsound _ hsome hshows =>
      rw [hsome] at hstate
      exact .configured (hsound.configure (hahead _ rfl)) hterms hstate
        ⟨hshows.clock, hshows.index, hshows.settlements, hshows.lastRate⟩
  · rw [if_pos hother]
    exact h.of_same ((hterms market).trans (if_neg (Ne.symm hother)))
      ((hstate market).trans (if_neg (Ne.symm hother)))

/-- What a settlement charges is covered by the time since the one before it. -/
theorem Follows.charged_le {s : FundingSettlement} (h : Follows market b (some a))
    (hnow : 0 ≤ a.seen.gap now) (hsettled : b.Settled market l now s next l') :
    ((a.charge s now).seconds : Int) * 1000 ≤ a.since.gap now := by
  cases h with
  | configured hsound hterms hstate hshows =>
    have hpassed : 0 ≤ a.since.gap now := (hsound.pass hnow).passed
    cases hsettled with
    | idle =>
      have hnothing : (a.charge (.idle market now) now).seconds = 0 := Nat.zero_mul _
      rw [hnothing]
      omega
    | charged hterms' _ _ hstate' hperiods =>
      rw [hterms, Option.some.injEq] at hterms'
      rw [hstate, Option.getD_some] at hstate'
      unfold charge FundingCharge.seconds
      dsimp only
      rw [← hperiods, ← hterms', ← hstate', hshows.clock]
      have hseconds := Instant.secondsUntil_le hpassed
      have hfloor := Nat.div_mul_le_self (a.since.secondsUntil now).toNat a.terms.period.toNat
      rw [UInt64.toNat_div]
      omega

theorem Follows.settle (h : Follows market b account)
    (hahead : ∀ a, account = some a → 0 ≤ a.seen.gap now)
    (hsettle : b.settle other l now = .ok (s, next, l')) :
    Follows market next (read market account (.settle other l now, .ok (.settled s l'))) := by
  have hsettled := FundingBook.settle_settled hsettle
  show Follows market next (if _ then _ else _)
  by_cases hother : other = market
  · subst hother
    rw [if_neg (not_not.2 rfl)]
    cases h with
    | unconfigured hnone _ =>
      obtain ⟨terms, hterms⟩ := hsettled.exists_terms
      rw [hnone] at hterms
      cases hterms
    | configured hsound hterms hstate hshows =>
      have hnow := hahead _ rfl
      have hcharged :=
        Follows.charged_le (.configured hsound hterms hstate hshows) hnow hsettled
      obtain ⟨state', hstate', hshows'⟩ := hshows.settle hstate hsettled
      exact .configured (hsound.settle hnow hcharged) ((hsettled.terms?_eq _).trans hterms) hstate'
        hshows'
  · rw [if_pos hother]
    exact h.of_same (hsettled.terms?_eq _) (hsettled.state?_of_ne (Ne.symm hother))

/-! ### Runs -/

theorem Follows.perform {op : Operation} {reply : Except FundingError Reply}
    (h : Follows market b account) (hahead : ∀ a, account = some a → 0 ≤ a.seen.gap op.now)
    (hperform : b.perform op = .ok (reply, next)) :
    Follows market next (read market account (op, reply)) := by
  rcases orStay_eq_ok.1 hperform with ⟨r, rfl, hanswer⟩ | ⟨cause, rfl, -, rfl⟩
  · cases op with
    | configure other terms now =>
      simp only [FundingBook.answer, bind_eq_ok, refusing_eq_ok, pure_eq_ok,
        Prod.mk.injEq] at hanswer
      obtain ⟨⟨earlier, configured⟩, hconfigure, rfl, rfl⟩ := hanswer
      exact h.configure hahead hconfigure
    | settle other l now =>
      simp only [FundingBook.answer, bind_eq_ok, pure_eq_ok, Prod.mk.injEq] at hanswer
      obtain ⟨⟨s, settled, booked⟩, hsettle, rfl, rfl⟩ := hanswer
      exact h.settle hahead hsettle
  · cases op <;> exact h

/-- What an account has seen last is either the operation or something before it. -/
theorem seen_of_read {op : Operation} {reply : Except FundingError Reply}
    (h : read market account (op, reply) = some a) : account = some a ∨ a.seen = op.now := by
  cases op with
  | configure other terms now =>
    cases reply with
    | error cause => exact .inl h
    | ok r =>
      change (if other ≠ market then account else some _) = some a at h
      split at h
      · exact .inl h
      · cases h
        cases account <;> exact .inr rfl
  | settle other l now =>
    rcases reply with cause | ⟨earlier⟩ | ⟨s, booked⟩
    · exact .inl h
    · exact .inl h
    · change (if other ≠ market then account else account.map _) = some a at h
      split at h
      · exact .inl h
      · obtain ⟨before, -, rfl⟩ := Option.map_eq_some_iff.1 h
        exact .inr rfl

/-- Account and book stay side by side while the clock does not go back. -/
theorem Follows.run {ops later : List Operation} {replies : List (Except FundingError Reply)}
    {last : FundingBook} (h : Follows market b account)
    (hforward : FundingBook.Forward (ops ++ later)) (hahead : Precedes account (ops ++ later))
    (hrun : b.run ops = .ok (replies, last)) :
    Follows market last (readAll market account ops replies) ∧
      Precedes (readAll market account ops replies) later := by
  induction ops generalizing b account replies with
  | nil =>
    cases hrun
    exact ⟨h, hahead⟩
  | cons op ops ih =>
    obtain ⟨reply, mid, rest, hperform, hrest, rfl⟩ := inTurn_cons_eq_ok.1 hrun
    obtain ⟨hfirst, hforward⟩ := List.pairwise_cons.1 hforward
    refine ih (h.perform (fun a ha => hahead a ha op (List.mem_cons_self ..)) hperform) hforward
      (fun a ha next hnext => ?_) hrest
    rcases seen_of_read ha with hbefore | hseen
    · exact hahead a hbefore next (List.mem_cons_of_mem _ hnext)
    · rw [hseen]
      exact Instant.not_lt_iff.1 (hfirst next hnext)

/-- At the end of a run that starts without any terms, account and book stand side by side. -/
theorem follows_ofRun {ops later : List Operation} {replies : List (Except FundingError Reply)}
    (hrun : FundingBook.empty.run ops = .ok (replies, b))
    (hforward : FundingBook.Forward (ops ++ later)) (market : MarketId) :
    Follows market b (ofRun market ops replies) ∧ Precedes (ofRun market ops replies) later :=
  (Follows.unconfigured rfl rfl).run hforward nofun hrun

theorem Follows.tallies (h : Follows market b account) :
    Option.Rel Tallies account (b.state? market) := by
  cases h with
  | unconfigured _ hstate =>
    rw [hstate]
    exact .none
  | configured hsound _ hstate hshows =>
    rw [hstate]
    exact .some ⟨hshows, hshows.clock ▸ hsound.once⟩

end FundingAccount

namespace FundingBook

variable {b : FundingBook} {ops : List Operation} {replies : List (Except FundingError Reply)}

/-- **No time is charged twice.**  After every run whose clock never goes back, in every market:
the seconds that its settlements charged add up to no more than the time between its first terms
and its last settlement, each charge being for a stretch of time of its own; the index is the sum of
all rates times their periods, exactly; and the state tells the number of those settlements and the
rate of the last one. -/
theorem run_tallies (hrun : empty.run ops = .ok (replies, b)) (hforward : Forward ops)
    (market : MarketId) :
    Option.Rel FundingAccount.Tallies (FundingAccount.ofRun market ops replies)
      (b.state? market) := by
  rw [← List.append_nil ops] at hforward
  exact (FundingAccount.follows_ofRun hrun hforward market).1.tallies

/-- A long against a smaller short. -/
def sampleTrades : List Ledger.Operation :=
  [.openPosition (Ledger.sampleOrder ⟨1⟩ .long (.ofUInt32 1000)) Ledger.sampleSchedule .epoch,
    .openPosition (Ledger.sampleOrder ⟨2⟩ .short (.ofUInt32 600)) Ledger.sampleSchedule .epoch]

/-- Funding that costs three percent at most, every hour. -/
def hourly (enabled : Bool) : FundingTerms :=
  ⟨enabled, 3600, ⟨300⟩⟩

/-- A period of eight hours, a change of terms, a settlement that is too soon, and two hours. -/
def samplePeriods (l : Ledger) : List Operation :=
  [.configure ⟨1⟩ .standard .epoch, .settle ⟨1⟩ l ⟨30000000⟩,
    .configure ⟨1⟩ (hourly true) ⟨31000000⟩, .settle ⟨1⟩ l ⟨32000000⟩, .settle ⟨1⟩ l ⟨38000000⟩]

theorem run_tallies_periods :
    ∃ ledgerReplies l replies b,
      (Ledger.startingAt 1).run sampleTrades = .ok (ledgerReplies, l) ∧
      empty.run (samplePeriods l) = .ok (replies, b) ∧ Forward (samplePeriods l) ∧
      (FundingAccount.ofRun ⟨1⟩ (samplePeriods l) replies).map (·.charges) =
        some [⟨⟨75⟩, 1, 28800, ⟨0⟩, ⟨30000000⟩⟩, ⟨⟨75⟩, 2, 3600, ⟨30000000⟩, ⟨38000000⟩⟩] ∧
      Option.Rel FundingAccount.Tallies (FundingAccount.ofRun ⟨1⟩ (samplePeriods l) replies)
        (b.state? ⟨1⟩) := by
  obtain ⟨⟨ledgerReplies, l⟩, hledger, htest⟩ := exists_of_succeedsWith
    (fun r => succeedsWith (fun r' => Forward (samplePeriods r.2) ∧
        (FundingAccount.ofRun ⟨1⟩ (samplePeriods r.2) r'.1).map (·.charges) =
          some [⟨⟨75⟩, 1, 28800, ⟨0⟩, ⟨30000000⟩⟩, ⟨⟨75⟩, 2, 3600, ⟨30000000⟩, ⟨38000000⟩⟩])
      (empty.run (samplePeriods r.2)))
    (x := (Ledger.startingAt 1).run sampleTrades) (by decide +kernel)
  obtain ⟨⟨replies, b⟩, hrun, hseen⟩ := exists_of_succeedsWith _ htest
  obtain ⟨hforward, hcharges⟩ := of_decide_eq_true hseen
  exact ⟨ledgerReplies, l, replies, b, hledger, hrun, hforward, hcharges,
    run_tallies hrun hforward ⟨1⟩⟩

end FundingBook

end Clearing
